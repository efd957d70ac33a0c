import DnsMultiZone.Work.Cursor

/-! # The order of the replies

A query is asked of some zones, and each of them replies once. In which order the replies come, and what
happens to other queries in between, does not change what the client is sent: the reply of the first
zone that matches, else the reply of the first zone of all (`selected`). The invariant (`Waiting`) ties
the states of the zones to the set of zones that have replied.

* `answer_independent_of_order`: as long as the query is pending nothing has been sent, once it is not,
  exactly `selected` has, and it is not pending any more when every asked zone has replied. -/

namespace DnsMultiZone.Work.Confluence

open DnsMultiZone.Lib.BigEndian DnsMultiZone.Lib.Runs
open DnsMultiZone.Config.Address DnsMultiZone.Config.ConfigType
open DnsMultiZone.Work.Connect DnsMultiZone.Work.Query DnsMultiZone.Work.Scan
open DnsMultiZone.Work.Steps DnsMultiZone.Work.Cursor

/-- The zone is asked, and its reply matches. -/
def AskedAndMatches (zones : Zones) (w : DNSQureyWork) (d : Bytes) (outs : ℕ → SendOutcome)
    (reply : ℕ → Bytes) (i : ℕ) : Prop :=
  IsAsked zones w d outs i ∧
    ReplyMatches (zoneAt zones i) (queryType d) (Reply.ofDatagram (reply i))

instance (zones : Zones) (w : DNSQureyWork) (d : Bytes) (outs : ℕ → SendOutcome)
    (reply : ℕ → Bytes) (i : ℕ) : Decidable (AskedAndMatches zones w d outs reply i) := by
  unfold AskedAndMatches; infer_instance

/-- **What the client is sent**: the reply of the first zone that matches; if none does, the reply of
the first zone, if that was asked; as `SendResult` rewrites it. -/
def selected (zones : Zones) (w : DNSQureyWork) (d : Bytes) (outs : ℕ → SendOutcome)
    (reply : ℕ → Bytes) : Option Bytes :=
  match (List.range w.vsDNSConnects.length).find? fun i => AskedAndMatches zones w d outs reply i with
  | some i => sendResult zones i (queryType d) (reply i)
  | none => if IsAsked zones w d outs 0 then sendResult zones 0 (queryType d) (reply 0) else none

/-- Events for other queries. -/
def Other (n : ℕ) : Event → Prop
  | .recv _ d _ _ => d.length < 2 ∨ queryID d ≠ n
  | .read _ d => d = [] ∨ replyID d ≠ n
  | .disconnect _ => False
  | .write _ _ => True

/-- The replies of the zones `order`, in this order, among events for other queries. -/
inductive Interleaving (n : ℕ) (reply : ℕ → Bytes) : List ℕ → List Event → Prop
  | nil : Interleaving n reply [] []
  | other {order : List ℕ} {es : List Event} {e : Event} (he : Other n e)
      (h : Interleaving n reply order es) : Interleaving n reply order (e :: es)
  | reply {order : List ℕ} {es : List Event} (i : ℕ) (h : Interleaving n reply order es) :
      Interleaving n reply (i :: order) (.read i (reply i) :: es)

/-- The datagram of a call to `SendTo`. -/
def sentData : Call → Option Bytes
  | .sendTo _ sData => some sData
  | _ => none

/-- What one step sends the client for the query `n`. -/
def answerOf (n : ℕ) (x : Entry DNSQureyWork Event (List Call)) : List Bytes :=
  match x.event with
  | .read _ d => if replyID d = n then x.out.filterMap sentData else []
  | _ => []

/-- What a run has sent the client for the query `n`, in order. -/
def answers (n : ℕ) (tr : List (Entry DNSQureyWork Event (List Call))) : List Bytes :=
  tr.reverse.flatMap (answerOf n)

theorem answers_cons (n : ℕ) (x : Entry DNSQureyWork Event (List Call))
    (tr : List (Entry DNSQureyWork Event (List Call))) :
    answers n (x :: tr) = answers n tr ++ answerOf n x := by
  simp [answers]

variable {zones : Zones} {w₀ w : DNSQureyWork} {d : Bytes} {outs : ℕ → SendOutcome} {reply : ℕ → Bytes}
  {wi : DNSQureyWorkItem}

theorem Other.pending (zones : Zones) (w : DNSQureyWork) {n : ℕ} {e : Event} (he : Other n e) :
    pending (step zones e w).1 n = pending w n := by
  rw [pending_step]
  cases e with
  | recv l d now outs => exact if_pos he
  | read i d => exact if_pos he
  | disconnect i => exact he.elim
  | write i outs => rfl

theorem Other.answerOf {n : ℕ} {e : Event} (he : Other n e) :
    answerOf n ⟨w, e, (step zones e w).2⟩ = [] := by
  cases e with
  | read i d =>
    rcases he with rfl | he
    · simp [Confluence.answerOf, step]
    · exact if_neg he
  | recv l d now outs => rfl
  | disconnect i => rfl
  | write i outs => rfl

/-! ### The zones that have replied -/

/-- What one item holds once its zone has replied. -/
structure RepliedBy (z : ZoneInfo) (q : ℕ) (data : Bytes) (item : DNSQueryResultItem) : Prop where
  sDNSData : item.sDNSData = data
  isMatch : item.eState = .match ↔ ReplyMatches z q (Reply.ofDatagram data)
  ne_wait : item.eState ≠ .wait
  ne_error : item.eState ≠ .error

theorem repliedBy_judge (z : ZoneInfo) (q : ℕ) {data : Bytes} (item : DNSQueryResultItem)
    (hd : data ≠ []) : RepliedBy z q data (judge z q (Reply.ofDatagram data) item) := by
  refine ⟨?_, judge_eq_match, judge_ne_wait, ?_⟩
  · unfold judge
    dsimp only
    split_ifs <;> rfl
  · have hl : (Reply.ofDatagram data).sDNSData.length ≠ 0 := fun h0 =>
      hd (List.length_eq_zero_iff.mp h0)
    unfold judge judgeAddresses
    dsimp only
    rw [if_neg hl]
    split_ifs <;> simp

/-- **The items once the zones `done` have replied**: the other asked zones are waited for, and the
scan passes the zones that were not asked. -/
structure Settled (zones : Zones) (w₀ : DNSQureyWork) (d : Bytes) (outs : ℕ → SendOutcome)
    (reply : ℕ → Bytes) (done : List ℕ) (items : List DNSQueryResultItem) : Prop where
  asked : ∀ i ∈ done, IsAsked zones w₀ d outs i
  wait : ∀ i, IsAsked zones w₀ d outs i → i ∉ done → stateAt items i = some .wait
  replied : ∀ i ∈ done, ∃ item, items[i]? = some item ∧
    RepliedBy (zoneAt zones i) (queryType d) (reply i) item
  unasked : ∀ i, ¬ IsAsked zones w₀ d outs i → Passed items i ∧
    (i = 0 → stateAt items i ≠ some .notMatch)

/-- The pending query once the zones `done` have replied. -/
structure Waiting (zones : Zones) (w₀ : DNSQureyWork) (d : Bytes) (outs : ℕ → SendOutcome)
    (reply : ℕ → Bytes) (done : List ℕ) (wi : DNSQureyWorkItem) : Prop where
  uQType : wi.uQType = queryType d
  cursor : CursorOk wi
  undecided : Undecided wi.vsDNSQueryResultItems
  settled : Settled zones w₀ d outs reply done wi.vsDNSQueryResultItems

theorem waiting_created (n : ℕ) (hne : ∃ i, IsAsked zones w d outs i) :
    Waiting zones w d outs reply [] (.created n (queryType d) (askedFirst zones w d outs)) := by
  obtain ⟨i₀, hi₀⟩ := hne
  refine ⟨rfl, ⟨Nat.zero_le _, fun k _ hk => absurd hk (Nat.not_lt_zero k)⟩, ?_, ?_, ?_, ?_, ?_⟩
  · exact ⟨i₀, stateAt_askedFirst_wait.mpr hi₀, fun j _ => stateAt_askedFirst_ne_match⟩
  · exact fun i hi => absurd hi List.not_mem_nil
  · exact fun i hi _ => stateAt_askedFirst_wait.mpr hi
  · exact fun i hi => absurd hi List.not_mem_nil
  · intro i hi
    refine ⟨⟨fun hw => hi (stateAt_askedFirst_wait.mp hw), stateAt_askedFirst_ne_match⟩, ?_⟩
    rintro rfl hn
    obtain ⟨c, -, hs⟩ := stateAt_askedFirst.mp hn
    unfold askZone sendOrError at hs
    rw [if_neg (by simp)] at hs
    dsimp only at hs
    split_ifs at hs

theorem Settled.cons {done : List ℕ} {i : ℕ}
    (h : Settled zones w₀ d outs reply done wi.vsDNSQueryResultItems) (hq : wi.uQType = queryType d)
    (hi : IsAsked zones w₀ d outs i) (hid : i ∉ done) (hd : reply i ≠ []) :
    Settled zones w₀ d outs reply (i :: done) (itemsAfter zones wi i (reply i)) := by
  refine ⟨?_, ?_, ?_, ?_⟩
  · intro j hj
    rcases List.mem_cons.mp hj with rfl | hj
    · exact hi
    · exact h.asked j hj
  · intro j hj hjd
    obtain ⟨hji, hjd⟩ := not_or.mp fun hor => hjd (List.mem_cons.mpr hor)
    rw [stateAt_itemsAfter_ne zones wi _ (Ne.symm hji)]
    exact h.wait j hj hjd
  · intro j hj
    rcases List.mem_cons.mp hj with rfl | hj
    · have hlt := lt_length_of_stateAt (h.wait j hi hid)
      refine ⟨_, ?_, repliedBy_judge (zoneAt zones j) (queryType d) wi.vsDNSQueryResultItems[j] hd⟩
      unfold itemsAfter Query.replied
      rw [List.getElem?_modify_eq, List.getElem?_eq_getElem hlt, hq]
      rfl
    · obtain ⟨item, hitem, hr⟩ := h.replied j hj
      refine ⟨item, ?_, hr⟩
      have hij : i ≠ j := fun hij => hid (hij ▸ hj)
      unfold itemsAfter Query.replied
      rw [List.getElem?_modify, hitem]
      simp [hij]
  · intro j hj
    have hij : i ≠ j := fun hij => hj (hij ▸ hi)
    unfold Passed
    rw [stateAt_itemsAfter_ne zones wi _ hij]
    exact h.unasked j hj

theorem Settled.stateAt_match {done : List ℕ} {items : List DNSQueryResultItem} {i : ℕ}
    (h : Settled zones w₀ d outs reply done items) (hm : stateAt items i = some .match) :
    AskedAndMatches zones w₀ d outs reply i ∧ i ∈ done := by
  by_cases hi : IsAsked zones w₀ d outs i
  · by_cases hd : i ∈ done
    · obtain ⟨item, hitem, hr⟩ := h.replied i hd
      unfold stateAt at hm
      rw [hitem] at hm
      exact ⟨⟨hi, hr.isMatch.mp (Option.some.inj hm)⟩, hd⟩
    · rw [h.wait i hi hd] at hm
      cases hm
  · exact absurd hm (h.unasked i hi).1.2

theorem Settled.mem_done {done : List ℕ} {items : List DNSQueryResultItem} {i : ℕ}
    (h : Settled zones w₀ d outs reply done items) (hi : IsAsked zones w₀ d outs i)
    (hp : Passed items i) : i ∈ done := by
  by_contra hd
  exact hp.1 (h.wait i hi hd)

theorem Settled.not_matches {done : List ℕ} {items : List DNSQueryResultItem} {i : ℕ}
    (h : Settled zones w₀ d outs reply done items) (hp : Passed items i) :
    ¬ AskedAndMatches zones w₀ d outs reply i := by
  rintro ⟨hi, hm⟩
  obtain ⟨item, hitem, hr⟩ := h.replied i (h.mem_done hi hp)
  refine hp.2 ?_
  unfold stateAt
  rw [hitem]
  exact congrArg some (hr.isMatch.mpr hm)

/-- Once the scan passes every zone, the first one has replied without a match exactly if it was asked. -/
theorem Settled.first_notMatch_iff {done : List ℕ} {items : List DNSQueryResultItem}
    (h : Settled zones w₀ d outs reply done items) (hp : Passed items 0) :
    stateAt items 0 = some .notMatch ↔ IsAsked zones w₀ d outs 0 := by
  constructor
  · intro h0
    by_contra hn
    exact (h.unasked 0 hn).2 rfl h0
  · intro h0a
    obtain ⟨item, hitem, hr⟩ := h.replied 0 (h.mem_done h0a hp)
    have hst : stateAt items 0 = some item.eState := by
      unfold stateAt
      rw [hitem]
      rfl
    have hne : item.eState ≠ .match := fun hm => hp.2 (hst.trans (congrArg some hm))
    rw [hst]
    cases hc : item.eState with
    | wait => exact absurd hc hr.ne_wait
    | error => exact absurd hc hr.ne_error
    | «match» => exact absurd hc hne
    | notMatch => rfl

/-- **A decision is the right one**: what the scan gives the client, once it does not wait, is the
reply selected of all zones. -/
theorem Settled.result {done : List ℕ} {items : List DNSQueryResultItem}
    (h : Settled zones w₀ d outs reply done items) (hs : (scan items 0).1 ≠ .waiting) :
    (scan items 0).1.result zones (queryType d) items = selected zones w₀ d outs reply := by
  unfold selected
  rcases scan_cases items 0 with ⟨j, -, -, -, he⟩ | ⟨j, -, hm, hp, he⟩ | ⟨hp, h0, he⟩ | ⟨hp, h0, he⟩
  · rw [he] at hs
    exact absurd rfl hs
  · obtain ⟨ham, hjd⟩ := h.stateAt_match hm
    obtain ⟨item, hitem, hr⟩ := h.replied j hjd
    have hfind : (List.range w₀.vsDNSConnects.length).find?
        (fun i => AskedAndMatches zones w₀ d outs reply i) = some j := by
      refine List.find?_range_eq_some.mpr ⟨decide_eq_true ham, List.mem_range.mpr ham.1.lt, ?_⟩
      intro k hk
      rw [decide_eq_false (h.not_matches (hp k (Nat.zero_le k) hk))]
      rfl
    rw [he, hfind]
    simp [Outcome.result, hitem, hr.sDNSData]
  all_goals
    have hfind : (List.range w₀.vsDNSConnects.length).find?
        (fun i => AskedAndMatches zones w₀ d outs reply i) = none := by
      refine List.find?_eq_none.mpr fun i _ => ?_
      rw [decide_eq_true_eq]
      exact h.not_matches (hp i (Nat.zero_le i))
    rw [he, hfind]
  · have h0a := (h.first_notMatch_iff (hp 0 le_rfl)).mp h0
    obtain ⟨item, hitem, hr⟩ := h.replied 0 (h.mem_done h0a (hp 0 le_rfl))
    rw [if_pos h0a]
    simp [Outcome.result, hitem, hr.sDNSData]
  · have h0a : ¬ IsAsked zones w₀ d outs 0 := fun ha => h0 ((h.first_notMatch_iff (hp 0 le_rfl)).mpr ha)
    rw [if_neg h0a]
    rfl

theorem Settled.not_waiting {done : List ℕ} {items : List DNSQueryResultItem}
    (h : Settled zones w₀ d outs reply done items) (hall : ∀ i, IsAsked zones w₀ d outs i → i ∈ done) :
    (scan items 0).1 ≠ .waiting := by
  intro hs
  obtain ⟨i, hw, -⟩ := scan_waiting_iff.mp hs
  by_cases hi : IsAsked zones w₀ d outs i
  · obtain ⟨item, hitem, hr⟩ := h.replied i (hall i hi)
    unfold stateAt at hw
    rw [hitem] at hw
    exact hr.ne_wait (Option.some.inj hw)
  · exact (h.unasked i hi).1.1 hw

/-! ### Runs -/

/-- One more reply leaves the query waiting, or sends what is selected and finishes it. -/
theorem Waiting.read {done : List ℕ} {i : ℕ} {n : ℕ} (h : Waiting zones w₀ d outs reply done wi)
    (hp : pending w n = some wi) (hi : IsAsked zones w₀ d outs i) (hid : i ∉ done)
    (hd : reply i ≠ []) (hn : replyID (reply i) = n) :
    (∃ wi', pending (step zones (.read i (reply i)) w).1 n = some wi' ∧
      Waiting zones w₀ d outs reply (i :: done) wi' ∧
      answerOf n ⟨w, .read i (reply i), (step zones (.read i (reply i)) w).2⟩ = []) ∨
    (pending (step zones (.read i (reply i)) w).1 n = none ∧
      answerOf n ⟨w, .read i (reply i), (step zones (.read i (reply i)) w).2⟩ =
        (selected zones w₀ d outs reply).toList) := by
  subst hn
  have hs := h.settled.cons h.uQType hi hid hd
  -- the zone was waited for, so the cursor has not passed it
  have hci : ¬ i < wi.nMaxDoneIndex := fun hlt =>
    (h.cursor.passed i (Nat.zero_le i) hlt).1 (h.settled.wait i hi hid)
  have hscan : (scanAfter zones wi i (reply i)).1 = (scan (itemsAfter zones wi i (reply i)) 0).1 :=
    scan_eq_scan_zero (h.cursor.passed_itemsAfter fun hlt => absurd hlt hci)
  have hnext : pending (step zones (.read i (reply i)) w).1 (replyID (reply i)) = _ :=
    pending_read hd hp
  have hans : answerOf (replyID (reply i)) ⟨w, .read i (reply i),
      (step zones (.read i (reply i)) w).2⟩ =
        (step zones (.read i (reply i)) w).2.filterMap sentData := if_pos rfl
  rw [hans]
  rcases step_read zones i (reply i) w with ⟨hn, -⟩ | ⟨wi', -, hp', ⟨hw, he⟩ | ⟨hw, he⟩⟩
  · rcases hn with hn | hn
    · exact absurd hn hd
    · rw [hp] at hn
      cases hn
  · rw [hp] at hp'
    cases hp'
    rw [if_pos hw] at hnext
    refine Or.inl ⟨_, hnext, ⟨h.uQType, ?_, scan_waiting_iff.mp (hscan ▸ hw), hs⟩, ?_⟩
    · exact h.cursor.read hw fun hlt => absurd hlt hci
    · rw [he]
      rfl
  · rw [hp] at hp'
    cases hp'
    rw [if_neg hw] at hnext
    refine Or.inr ⟨hnext, ?_⟩
    have hres := hs.result (hscan ▸ hw)
    rw [he, hscan, h.uQType, hres]
    unfold DNSQureyWork.finish
    rcases selected zones w₀ d outs reply with _ | out
    · dsimp only
      split_ifs <;> rfl
    · dsimp only
      split_ifs <;> rfl

/-- After the query is finished nothing more is sent for it. -/
theorem run_finished {n : ℕ} {order : List ℕ} {es : List Event} (hes : Interleaving n reply order es)
    (tr : List (Entry DNSQureyWork Event (List Call))) (w : DNSQureyWork) (hp : pending w n = none) :
    answers n (exec (step zones) es tr w).1 = answers n tr ∧
      pending (exec (step zones) es tr w).2 n = none := by
  induction hes generalizing tr w with
  | nil => exact ⟨rfl, hp⟩
  | other he _ ih =>
    obtain ⟨h1, h2⟩ := ih (⟨w, _, _⟩ :: tr) _ ((he.pending zones w).trans hp)
    refine ⟨h1.trans ?_, h2⟩
    rw [answers_cons, he.answerOf, List.append_nil]
  | reply i _ ih =>
    have hkept : pending (step zones (.read i (reply i)) w).1 n = none := by
      rcases hq : pending (step zones (.read i (reply i)) w).1 n with _ | wi
      · rfl
      · cases stepped hq with
        | kept hk => exact absurd (hp.symm.trans hk) (by simp)
        | replied _ _ wi hk _ _ _ => exact absurd (hp.symm.trans hk) (by simp)
    obtain ⟨h1, h2⟩ := ih (⟨w, _, _⟩ :: tr) _ hkept
    refine ⟨h1.trans ?_, h2⟩
    have hnil : answerOf n ⟨w, .read i (reply i), (step zones (.read i (reply i)) w).2⟩ = [] := by
      by_cases hn : replyID (reply i) = n
      · refine (if_pos hn).trans ?_
        rcases step_read zones i (reply i) w with ⟨-, he⟩ | ⟨wi, -, hp', -⟩
        · rw [he]
          rfl
        · rw [hn, hp] at hp'
          cases hp'
      · exact if_neg hn
    rw [answers_cons, hnil, List.append_nil]

/-- **A run of replies**: the query waits for the zones that have not replied, and nothing has been
sent; or what is selected has been sent, once. -/
theorem run_waiting {n : ℕ} {order : List ℕ} {es : List Event} (hes : Interleaving n reply order es)
    (hr : ∀ i, IsAsked zones w₀ d outs i → reply i ≠ [] ∧ replyID (reply i) = n) (hord : order.Nodup)
    (hask : ∀ i ∈ order, IsAsked zones w₀ d outs i) (done : List ℕ) (hdis : ∀ i ∈ order, i ∉ done)
    (tr : List (Entry DNSQureyWork Event (List Call))) (w : DNSQureyWork) (wi : DNSQureyWorkItem)
    (hp : pending w n = some wi) (hw : Waiting zones w₀ d outs reply done wi) :
    (∃ wi', pending (exec (step zones) es tr w).2 n = some wi' ∧
      Waiting zones w₀ d outs reply (order.reverse ++ done) wi' ∧
      answers n (exec (step zones) es tr w).1 = answers n tr) ∨
    (pending (exec (step zones) es tr w).2 n = none ∧
      answers n (exec (step zones) es tr w).1 =
        answers n tr ++ (selected zones w₀ d outs reply).toList) := by
  induction hes generalizing done tr w wi with
  | nil => exact Or.inl ⟨wi, hp, hw, rfl⟩
  | @other _ _ e he _ ih =>
    have ih := ih hord hask done hdis (⟨w, e, (step zones e w).2⟩ :: tr) _ wi
      ((he.pending zones w).trans hp) hw
    rw [answers_cons, he.answerOf, List.append_nil] at ih
    exact ih
  | reply i hes ih =>
    obtain ⟨hi, hord⟩ := List.nodup_cons.mp hord
    have hia := hask i List.mem_cons_self
    rcases hw.read hp hia (hdis i List.mem_cons_self) (hr i hia).1 (hr i hia).2 with
      ⟨wi', hp', hw', ha⟩ | ⟨hp', ha⟩
    · have ih := ih hord (fun j hj => hask j (List.mem_cons_of_mem _ hj)) (i :: done) ?_
        (⟨w, .read i (reply i), (step zones (.read i (reply i)) w).2⟩ :: tr) _ wi' hp' hw'
      · rw [answers_cons, ha, List.append_nil] at ih
        rw [List.reverse_cons, List.append_assoc]
        exact ih
      · intro j hj hjd
        rcases List.mem_cons.mp hjd with rfl | hjd
        · exact hi hj
        · exact hdis j (List.mem_cons_of_mem _ hj) hjd
    · obtain ⟨h1, h2⟩ := run_finished hes
        (⟨w, .read i (reply i), (step zones (.read i (reply i)) w).2⟩ :: tr) _ hp'
      refine Or.inr ⟨h2, h1.trans ?_⟩
      rw [answers_cons, ha]

/-- **The choice of the zone does not depend on the order of the replies.** A new query is asked of at
least one zone, and the zones `order` reply once each, among events for other queries. As long as the
query is pending nothing has been sent for it; when it is not, exactly what is selected has been; and
it is not pending once every zone asked has replied. -/
theorem answer_independent_of_order (zones : Zones) (w w' : DNSQureyWork) (l : Option PktInfo)
    (d : Bytes) (now : ℕ) (outs : ℕ → SendOutcome) (reply : ℕ → Bytes) (order : List ℕ)
    (es : List Event) (tr : List (Entry DNSQureyWork Event (List Call)))
    (hl : 2 ≤ d.length) (hp : pending w (queryID d) = none) (hne : ∃ i, IsAsked zones w d outs i)
    (hr : ∀ i, IsAsked zones w d outs i → reply i ≠ [] ∧ replyID (reply i) = queryID d)
    (hord : order.Nodup) (hask : ∀ i ∈ order, IsAsked zones w d outs i)
    (hes : Interleaving (queryID d) reply order es)
    (hrun : exec (step zones) es [] (step zones (.recv l d now outs) w).1 = (tr, w')) :
    (pending w' (queryID d) ≠ none → answers (queryID d) tr = []) ∧
    (pending w' (queryID d) = none →
      answers (queryID d) tr = (selected zones w d outs reply).toList) ∧
    ((∀ i, IsAsked zones w d outs i → i ∈ order) → pending w' (queryID d) = none) := by
  have hp' : pending (step zones (.recv l d now outs) w).1 (queryID d) = _ := pending_recv_none hl hp
  have h := run_waiting hes hr hord hask [] (fun _ _ => List.not_mem_nil) [] _ _ hp'
    (waiting_created (queryID d) hne)
  rw [hrun] at h
  rcases h with ⟨wi, hwi, hw, ha⟩ | ⟨hn, ha⟩
  · refine ⟨fun _ => ha, fun hn => ?_, fun hall => ?_⟩
    · dsimp only at hwi
      rw [hwi] at hn
      cases hn
    · exact absurd (scan_waiting_iff.mpr hw.undecided) (hw.settled.not_waiting fun i hi =>
        List.mem_append_left _ (List.mem_reverse.mpr (hall i hi)))
  · exact ⟨fun hn' => absurd hn hn', fun _ => ha, fun _ => hn⟩

/-- Two zones reply in reverse order, the second with nothing to judge it by; it is selected. -/
theorem second_zone_selected : ∃ tr w',
    exec (step [emptyList4, emptyList4]) [.read 1 (emptyReply 5 [97] 1),
        .read 0 (addressReply 5 [97] 1 [1, 2, 3, 4])] []
      (step [emptyList4, emptyList4] (.recv none (query 5 [97] 1) 0 fun _ => .sent)
        (freshWork 2)).1 = (tr, w') ∧ answers 5 tr = [emptyReply 5 [97] 1] := by
  refine ⟨_, _, rfl, ?_⟩
  have hsel : (selected [emptyList4, emptyList4] (freshWork 2) (query 5 [97] 1) (fun _ => .sent)
      fun i => if i = 0 then addressReply 5 [97] 1 [1, 2, 3, 4] else emptyReply 5 [97] 1).toList =
      [emptyReply 5 [97] 1] := by
    decide +kernel
  rw [← hsel]
  have hlt : ∀ i, IsAsked [emptyList4, emptyList4] (freshWork 2) (query 5 [97] 1) (fun _ => .sent) i →
      i = 0 ∨ i = 1 := fun i hi => by
    have := hi.lt
    simp only [freshWork, List.length_map, List.length_range] at this
    omega
  have h := answer_independent_of_order [emptyList4, emptyList4] (freshWork 2) _ none
    (query 5 [97] 1) 0 (fun _ => .sent)
    (fun i => if i = 0 then addressReply 5 [97] 1 [1, 2, 3, 4] else emptyReply 5 [97] 1)
    [1, 0] [.read 1 (emptyReply 5 [97] 1), .read 0 (addressReply 5 [97] 1 [1, 2, 3, 4])] _
    (by decide) rfl ⟨0, by decide +kernel⟩
    (fun i hi => by rcases hlt i hi with rfl | rfl <;> decide +kernel) (by decide)
    (fun i hi => by
      rcases List.mem_cons.mp hi with rfl | hi
      · decide +kernel
      · rw [List.mem_singleton.mp hi]
        decide +kernel)
    (.reply 1 (.reply 0 .nil)) rfl
  rw [show queryID (query 5 [97] 1) = 5 by decide +kernel] at h
  refine h.2.1 (h.2.2 fun i hi => ?_)
  rcases hlt i hi with rfl | rfl <;> decide

end DnsMultiZone.Work.Confluence
