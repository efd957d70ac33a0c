import DnsMultiZone.Work.Cursor

/-! # Decided queries that stay pending

A pending query is decided once no zone is waited for before the first that matches, or none at all.
`DNSQueryResult` finishes a query it finds decided, but the other three events that end the wait for a
zone do not look: a failed send when a query is created or comes again, and an error on an upstream
socket. `KeepsOpen` says of each event, before it is handled, that it leaves no query decided.

* `allOpen_iff`: in a run of such events every pending query is undecided, and the next event keeps it
  so exactly when it is such an event.
* `decided_left_pending`: a query whose last awaited zone fails after the others have replied. -/

namespace DnsMultiZone.Work.Decided

open DnsMultiZone.Lib.BigEndian DnsMultiZone.Lib.Runs
open DnsMultiZone.Config.ConfigType
open DnsMultiZone.Work.Connect DnsMultiZone.Work.Query DnsMultiZone.Work.Scan
open DnsMultiZone.Work.Steps DnsMultiZone.Work.Cursor

variable {zones : Zones} {w w₀ : DNSQureyWork}

/-- **No decided query is pending.** -/
def AllOpen (w : DNSQureyWork) : Prop :=
  ∀ n wi, pending w n = some wi → Undecided wi.vsDNSQueryResultItems

/-- Every pending query has one item for each connection. -/
def Shaped (w : DNSQureyWork) : Prop :=
  ∀ n wi, pending w n = some wi → wi.vsDNSQueryResultItems.length = w.vsDNSConnects.length

/-- Some zone that satisfies `P` is waited for, and no zone before it matches. -/
def UndecidedBy (P : ℕ → Prop) (items : List DNSQueryResultItem) : Prop :=
  ∃ i, P i ∧ stateAt items i = some .wait ∧ ∀ j < i, stateAt items j ≠ some .match

/-- **The events that leave no query decided**: a new query is sent to some zone; a query that comes
again can be sent to a zone it is undecided by; a reply is no late match; and of every query, an upstream
that fails leaves another zone it is undecided by. -/
def KeepsOpen (zones : Zones) (w : DNSQureyWork) : Event → Prop
  | .recv _ d _ outs => 2 ≤ d.length →
    match pending w (queryID d) with
    | some wi => UndecidedBy (AcceptsAt w outs) wi.vsDNSQueryResultItems
    | none => ∃ i, IsAsked zones w d outs i
  | .read i d => NoLateMatch zones w (.read i d)
  | .disconnect i => ∀ n wi, pending w n = some wi → UndecidedBy (· ≠ i) wi.vsDNSQueryResultItems
  | .write _ _ => True

instance {P : ℕ → Prop} [DecidablePred P] (items : List DNSQueryResultItem) :
    Decidable (UndecidedBy P items) :=
  decidable_of_iff (∃ i < items.length, P i ∧ stateAt items i = some .wait ∧
      ∀ j < i, stateAt items j ≠ some .match)
    ⟨fun ⟨i, _, h⟩ => ⟨i, h⟩, fun ⟨i, h⟩ => ⟨i, lt_length_of_stateAt h.2.1, h⟩⟩

instance (zones : Zones) (w : DNSQureyWork) : ∀ e : Event, Decidable (KeepsOpen zones w e)
  | .recv _ d _ outs =>
    match h : pending w (queryID d) with
    | some wi => decidable_of_iff (2 ≤ d.length → UndecidedBy (AcceptsAt w outs) wi.vsDNSQueryResultItems)
        (by simp only [KeepsOpen, h])
    | none => decidable_of_iff (2 ≤ d.length → ∃ i < w.vsDNSConnects.length, IsAsked zones w d outs i)
        ⟨fun hk hl => by
            rw [h]
            obtain ⟨i, -, hi⟩ := hk hl
            exact ⟨i, hi⟩,
          fun hk hl => by
            have hk := hk hl
            rw [h] at hk
            obtain ⟨i, hi⟩ := hk
            exact ⟨i, hi.lt, hi⟩⟩
  | .read i d => (inferInstance : Decidable (NoLateMatch zones w (.read i d)))
  | .disconnect _ => decidable_of_iff _ forall_keys_iff
  | .write _ _ => isTrue trivial

/-! ### Each way to be pending after an event -/

/-- A query that comes again stays undecided exactly by zones whose sends are accepted. -/
theorem undecided_resent_iff {wi : DNSQureyWorkItem} {d : Bytes} {outs : ℕ → SendOutcome}
    (hl : wi.vsDNSQueryResultItems.length = w.vsDNSConnects.length) :
    Undecided (wi.resent (askedAgain w wi d outs)).vsDNSQueryResultItems ↔
      UndecidedBy (AcceptsAt w outs) wi.vsDNSQueryResultItems := by
  have hstate : ∀ i, (stateAt (wi.resent (askedAgain w wi d outs)).vsDNSQueryResultItems i = some .wait ↔
      AcceptsAt w outs i ∧ stateAt wi.vsDNSQueryResultItems i = some .wait) ∧
      (stateAt (wi.resent (askedAgain w wi d outs)).vsDNSQueryResultItems i = some .match ↔
        stateAt wi.vsDNSQueryResultItems i = some .match) := by
    intro i
    rcases hc : w.vsDNSConnects[i]? with _ | c
    · have hn : stateAt wi.vsDNSQueryResultItems i = none :=
        stateAt_eq_none (hl ▸ List.getElem?_eq_none_iff.mp hc)
      rw [stateAt_resent, hn]
      simp
    · rw [stateAt_askedAgain hc]
      have ha : AcceptsAt w outs i ↔ c.Accepts (outs i) := by
        simp [AcceptsAt, hc]
      rw [ha]
      rcases stateAt wi.vsDNSQueryResultItems i with _ | s
      · simp
      · by_cases hs : s = .wait
        · by_cases hacc : c.Accepts (outs i) <;> simp [hs, hacc]
        · simp [hs]
  unfold Undecided UndecidedBy
  refine exists_congr fun i => ?_
  rw [(hstate i).1, and_assoc]
  refine and_congr_right fun _ => and_congr_right fun _ => ?_
  exact forall_congr' fun j => imp_congr_right fun _ => not_congr (hstate j).2

theorem undecided_created_iff {n : ℕ} {d : Bytes} {outs : ℕ → SendOutcome} :
    Undecided (DNSQureyWorkItem.created n (queryType d)
        (askedFirst zones w d outs)).vsDNSQueryResultItems ↔ ∃ i, IsAsked zones w d outs i := by
  constructor
  · rintro ⟨i, hi, -⟩
    exact ⟨i, stateAt_askedFirst_wait.mp hi⟩
  · rintro ⟨i, hi⟩
    exact ⟨i, stateAt_askedFirst_wait.mpr hi, fun j _ => stateAt_askedFirst_ne_match⟩

/-- When the upstream of zone `i` fails, a query stays undecided exactly by other zones. -/
theorem undecided_disconnect_iff {wi : DNSQureyWorkItem} {i : ℕ} :
    Undecided (wi.disconnect i).vsDNSQueryResultItems ↔
      UndecidedBy (· ≠ i) wi.vsDNSQueryResultItems := by
  unfold Undecided UndecidedBy
  refine exists_congr fun j => ?_
  rw [← and_assoc]
  refine and_congr ?_ (forall_congr' fun k => imp_congr_right fun _ => not_congr ?_)
  · rw [stateAt_disconnect]
    by_cases hij : i = j
    · subst hij
      by_cases hw : stateAt wi.vsDNSQueryResultItems i = some .wait <;> simp [hw]
    · simp [hij, Ne.symm hij]
  · rw [stateAt_disconnect]
    by_cases hw : i = k ∧ stateAt wi.vsDNSQueryResultItems k = some .wait
    · rw [if_pos hw, hw.2]
      simp
    · rw [if_neg hw]

/-- After a late match its query is still pending, and decided. -/
theorem late_match_decides {wi : DNSQureyWorkItem} {i : ℕ} {d : Bytes} (hc : CursorOk wi)
    (hu : Undecided wi.vsDNSQueryResultItems) (hlt : i < wi.nMaxDoneIndex)
    (hm : ReplyMatches (zoneAt zones i) wi.uQType (Reply.ofDatagram d)) :
    (scanAfter zones wi i d).1 = .waiting ∧ ¬ Undecided (itemsAfter zones wi i d) := by
  obtain ⟨k, hk, hkm⟩ := hu
  have hck : wi.nMaxDoneIndex ≤ k := by
    by_contra hkc
    exact (hc.passed k (Nat.zero_le k) (not_le.mp hkc)).1 hk
  constructor
  · refine scan_waiting_iff_from.mpr ⟨k, hck, ?_, fun j hcj hjk => ?_⟩
    · rw [stateAt_itemsAfter_ne zones wi d (by omega)]
      exact hk
    · rw [stateAt_itemsAfter_ne zones wi d (by omega)]
      exact hkm j hjk
  · intro hu
    have := (hc.late hlt hm).1
    rw [scan_waiting_iff.mpr hu] at this
    cases this

/-! ### Runs -/

theorem shaped_step {e : Event} (h : Shaped w) : Shaped (step zones e w).1 := by
  intro n wi' hp
  rw [(conns_step zones e w).1]
  cases stepped hp with
  | kept hk => exact h n _ hk
  | resent l d now outs wi hk _ _ => simpa [DNSQureyWorkItem.resent] using h n wi hk
  | created l d now outs _ _ _ => simp [DNSQureyWorkItem.created, askedFirst]
  | replied i d wi hk _ _ _ => exact (length_itemsAfter zones wi i d).trans (h n wi hk)
  | disconnected i wi hk => simpa [DNSQureyWorkItem.disconnect] using h n wi hk

/-- A work in which the step theorem below applies. -/
structure Good (w : DNSQureyWork) : Prop where
  shaped : Shaped w
  cursor : ∀ n wi, pending w n = some wi → CursorOk wi
  allOpen : AllOpen w

theorem KeepsOpen.noLateMatch {e : Event} (h : KeepsOpen zones w e) : NoLateMatch zones w e := by
  cases e with
  | read i d => exact h
  | recv l d now outs => exact fun hl => hl
  | disconnect i => exact fun hl => hl
  | write i outs => exact fun hl => hl

/-- **One event**: no decided query is pending after it exactly when it is of the right kind. -/
theorem allOpen_step_iff (h : Good w) (e : Event) :
    AllOpen (step zones e w).1 ↔ KeepsOpen zones w e := by
  constructor
  · intro ho
    cases e with
    | recv l d now outs =>
      intro hl
      rcases hq : pending w (queryID d) with _ | wi
      · exact undecided_created_iff.mp (ho _ _ (pending_recv_none hl hq))
      · exact (undecided_resent_iff (h.shaped _ wi hq)).mp (ho _ _ (pending_recv_some hl hq))
    | read i d =>
      rintro ⟨hd, wi, hq, hlt, hm⟩
      obtain ⟨hs, hu⟩ := late_match_decides (h.cursor _ wi hq) (h.allOpen _ wi hq) hlt hm
      exact hu (ho _ _ ((pending_read hd hq).trans (if_pos hs)))
    | disconnect i =>
      intro n wi hq
      refine undecided_disconnect_iff.mp (ho n _ ?_)
      rw [pending_step]
      exact congrArg (Option.map _) hq
    | write i outs => exact trivial
  · intro hk n wi' hp
    cases stepped hp with
    | kept hq => exact h.allOpen n _ hq
    | resent l d now outs wi hq hl hn =>
      subst hn
      have hk := hk hl
      rw [hq] at hk
      exact (undecided_resent_iff (h.shaped _ wi hq)).mpr hk
    | created l d now outs hq hl hn =>
      subst hn
      have hk := hk hl
      rw [hq] at hk
      exact undecided_created_iff.mpr hk
    | replied i d wi hq hd hn hs =>
      subst hn
      rw [← scan_waiting_iff, ← hs]
      exact (scan_eq_scan_zero ((h.cursor _ wi hq).passed_itemsAfter fun hlt hm =>
        hk ⟨hd, wi, hq, hlt, hm⟩)).symm
    | disconnected i wi hq => exact undecided_disconnect_iff.mpr (hk n wi hq)

theorem good_run {tr : List (Entry DNSQureyWork Event (List Call))} (h0 : ∀ n, pending w₀ n = none)
    (h : Run (step zones) (KeepsOpen zones) w₀ tr w) : Good w := by
  refine Run.inv (P := fun _ w => Good w) ?_ ?_ h
  · refine ⟨?_, ?_, ?_⟩
    all_goals
      intro n wi hp
      rw [h0 n] at hp
      cases hp
  · intro tr s e hs hok
    exact ⟨shaped_step hs.shaped, cursorOk_step hs.cursor hok.noLateMatch,
      (allOpen_step_iff hs e).mpr hok⟩

/-- **When no decided query is left pending.** In a run of events that leave no query decided, no
decided query is pending in any state reached; and the next event leaves it so exactly when it is one
of them. -/
theorem allOpen_iff {tr : List (Entry DNSQureyWork Event (List Call))} (h0 : ∀ n, pending w₀ n = none)
    (h : Run (step zones) (KeepsOpen zones) w₀ tr w) :
    AllOpen w ∧ ∀ e, AllOpen (step zones e w).1 ↔ KeepsOpen zones w e :=
  ⟨(good_run h0 h).allOpen, allOpen_step_iff (good_run h0 h)⟩

/-- Two zones are asked under three IDs. The first query comes again and its send to the second zone
fails; the second zone replies to the third and does not match; then its socket reports an error. -/
def secondZoneLost : List Event :=
  [.recv none (query 5 [97] 1) 0 fun _ => .sent, .recv none (query 6 [98] 1) 0 fun _ => .sent,
    .recv none (query 5 [97] 1) 1 fun i => if i = 1 then .failed else .sent,
    .recv none (query 7 [99] 1) 1 fun _ => .sent, .read 1 (addressReply 7 [99] 1 [1, 2, 3, 4]),
    .disconnect 1]

/-- All three wait for the first zone, and an error on its socket too decides them unseen. -/
theorem allOpen_secondZoneLost :
    (∀ n ∈ [5, 6, 7], pending (exec (step [emptyList4, emptyList4]) secondZoneLost [] (freshWork 2)).2 n ≠
      none) ∧
    AllOpen (exec (step [emptyList4, emptyList4]) secondZoneLost [] (freshWork 2)).2 ∧
    ¬ AllOpen (step [emptyList4, emptyList4] (.disconnect 0)
      (exec (step [emptyList4, emptyList4]) secondZoneLost [] (freshWork 2)).2).1 := by
  have hrun : Run (step [emptyList4, emptyList4]) (KeepsOpen [emptyList4, emptyList4]) (freshWork 2)
      _ _ := Run.start.exec (show Allowed _ _ secondZoneLost _ by decide +kernel)
  refine ⟨by decide +kernel, (allOpen_iff (pending_freshWork 2) hrun).1, fun h => ?_⟩
  exact absurd (((allOpen_iff (pending_freshWork 2) hrun).2 _).mp h) (by decide +kernel)

/-- Two zones are asked. The first has replied and does not match, then the socket of the second
fails: nothing is waited for any more, but the client gets no answer and the query stays pending. -/
theorem decided_left_pending : ¬ ∀ (zones : Zones) (w₀ w : DNSQureyWork) (tr : List _),
    1 ≤ zones.length → w₀.vsDNSConnects.length = zones.length → (∀ n, pending w₀ n = none) →
    Run (step zones) anyStep w₀ tr w → AllOpen w := by
  intro h
  have hrun := run_exec (step [emptyList4, emptyList4]) (freshWork 2)
    [.recv none (query 5 [97] 1) 0 fun _ => .sent, .read 0 (addressReply 5 [97] 1 [1, 2, 3, 4]),
      .disconnect 1]
  have hp : (pending (exec (step [emptyList4, emptyList4])
      [.recv none (query 5 [97] 1) 0 fun _ => .sent, .read 0 (addressReply 5 [97] 1 [1, 2, 3, 4]),
        .disconnect 1] [] (freshWork 2)).2 5).map (fun wi => (scan wi.vsDNSQueryResultItems 0).1) =
      some .fallback := by
    decide +kernel
  obtain ⟨wi, hp, hs⟩ := Option.map_eq_some_iff.mp hp
  have hu := h _ _ _ _ (by decide) rfl (pending_freshWork 2) hrun 5 wi hp
  rw [scan_waiting_iff.mpr hu] at hs
  cases hs

end DnsMultiZone.Work.Decided
