import DnsMultiZone.Work.Confluence
import DnsMultiZone.Work.Answers

/-! # No unexpected answers

Upstreams may send anything at any time. An answer still takes a pending query away, and only a query of
the client brings one, so there are never more answers for an ID than queries with it
(`answers_le_queries`). And the data that may be sent is what a zone sent last for the ID since the step
that created the pending query (`HeldSince`), so nothing that was stored for an earlier query is used.

* `heldSince_step`, `held_run`: that invariant; `no_unexpected_answers`: both of every run. -/

namespace DnsMultiZone.Work.Replies

open DnsMultiZone.Lib.BigEndian DnsMultiZone.Lib.Runs
open DnsMultiZone.Config.Address DnsMultiZone.Config.ConfigType
open DnsMultiZone.Work.Connect DnsMultiZone.Work.Query DnsMultiZone.Work.Scan DnsMultiZone.Work.Steps
open DnsMultiZone.Work.Confluence DnsMultiZone.Work.Answers

variable {zones : Zones} {w w₀ : DNSQureyWork} {tr mid : Trace} {n : ℕ} {wi : DNSQureyWorkItem} {q : Bytes}

/-! ### How many answers -/

/-- The step is a query of the client with ID `n`. -/
def isQuery (n : ℕ) (x : Entry DNSQureyWork Event (List Call)) : Bool :=
  match x.event with
  | .recv _ d _ _ => 2 ≤ d.length ∧ queryID d = n
  | _ => false

/-- How many queries with ID `n` the client has sent. -/
def queries (n : ℕ) (tr : Trace) : ℕ := tr.countP (isQuery n)

/-- A query with ID `n` is pending, or none. -/
def openQueries (w : DNSQureyWork) (n : ℕ) : ℕ := (pending w n).toList.length

theorem openQueries_of_some (h : pending w n = some wi) : openQueries w n = 1 := by
  unfold openQueries
  rw [h]
  rfl

theorem openQueries_le (w : DNSQureyWork) (n : ℕ) : openQueries w n ≤ 1 := by
  unfold openQueries
  rcases pending w n with _ | wi
  · exact Nat.zero_le 1
  · exact le_rfl

theorem queries_cons (n : ℕ) (x : Entry DNSQureyWork Event (List Call)) (tr : Trace) :
    queries n (x :: tr) = queries n tr + if isQuery n x then 1 else 0 := List.countP_cons

theorem filterMap_sentData (ra : ReplyAddr) (out? : Option Bytes) (w : DNSQureyWork) (n : ℕ) :
    ((out?.toList.map (Call.sendTo ra)) ++ (w.finish n).2).filterMap sentData = out?.toList := by
  have hfin : (w.finish n).2.filterMap sentData = [] := by
    unfold DNSQureyWork.finish
    dsimp only
    split_ifs <;> rfl
  rw [List.filterMap_append, hfin, List.append_nil]
  rcases out? with _ | out <;> rfl

/-- **One step** answers a query that was pending before and is not after, or answers none. -/
theorem answers_step (zones : Zones) (e : Event) (w : DNSQureyWork) (n : ℕ) :
    (answerOf n ⟨w, e, (step zones e w).2⟩).length + openQueries (step zones e w).1 n ≤
      openQueries w n + if isQuery n ⟨w, e, (step zones e w).2⟩ then 1 else 0 := by
  have hother : ∀ {e}, Other n e → (answerOf n ⟨w, e, (step zones e w).2⟩).length +
      openQueries (step zones e w).1 n = openQueries w n := by
    intro e ho
    unfold openQueries
    rw [ho.answerOf, ho.pending zones w]
    exact Nat.zero_add _
  cases e with
  | recv l d now outs =>
    by_cases ho : d.length < 2 ∨ queryID d ≠ n
    · have hsame := hother (e := .recv l d now outs) ho
      omega
    · obtain ⟨hl, hn⟩ := not_or.mp ho
      have hq : isQuery n ⟨w, .recv l d now outs, (step zones (.recv l d now outs) w).2⟩ = true :=
        decide_eq_true ⟨not_lt.mp hl, not_not.mp hn⟩
      have hle := openQueries_le (step zones (.recv l d now outs) w).1 n
      rw [if_pos hq]
      show 0 + _ ≤ _
      omega
  | read i d =>
    by_cases ho : d = [] ∨ replyID d ≠ n
    · have hsame := hother (e := .read i d) ho
      omega
    obtain ⟨-, hn⟩ := not_or.mp ho
    obtain rfl := not_not.mp hn
    have hans : ∀ out, answerOf (replyID d) ⟨w, .read i d, out⟩ = out.filterMap sentData :=
      fun out => if_pos rfl
    have hle := openQueries_le (step zones (.read i d) w).1 (replyID d)
    rw [hans]
    rcases step_read zones i d w with ⟨-, he⟩ | ⟨wi, -, hp, ⟨-, he⟩ | ⟨-, he⟩⟩ <;> rw [he] at hle ⊢
    · exact (Nat.zero_add _).le.trans (Nat.le_add_right _ _)
    · rw [openQueries_of_some hp]
      exact ((Nat.zero_add _).le.trans hle).trans (Nat.le_add_right _ _)
    · have hnone : openQueries (w.finish (replyID d)).1 (replyID d) = 0 := by
        unfold openQueries pending DNSQureyWork.finish
        rw [AList.lookup_erase]
        rfl
      rw [filterMap_sentData, hnone, openQueries_of_some hp]
      rcases (scanAfter zones wi i d).1.result zones wi.uQType (itemsAfter zones wi i d) with _ | out
      · exact Nat.zero_le _
      · exact Nat.le_add_right _ _
  | disconnect i =>
    have hsame : openQueries (step zones (.disconnect i) w).1 n = openQueries w n := by
      unfold openQueries
      rw [pending_step]
      show ((pending w n).map _).toList.length = _
      rcases pending w n with _ | wi <;> rfl
    rw [hsame]
    exact (Nat.zero_add _).le.trans (Nat.le_add_right _ _)
  | write i outs =>
    have hsame := hother (e := .write i outs) trivial
    omega

/-- **No more answers than queries**: each pending query leaves room for one. -/
theorem answers_le_queries (h : Run (step zones) anyStep w₀ tr w) (h0 : Fresh w₀) (n : ℕ) :
    (answers n tr).length + openQueries w n ≤ queries n tr := by
  refine Run.inv (P := fun tr w => (answers n tr).length + openQueries w n ≤ queries n tr) ?_ ?_ h
  · unfold openQueries
    rw [h0.pending n]
    exact le_rfl
  · intro tr w e ih _
    have hstep := answers_step zones e w n
    rw [answers_cons, queries_cons, List.length_append]
    omega

/-! ### What an answer is made of -/

/-- The datagram of zone `i` for the ID `n`, if the step is one. -/
def replyOf (n i : ℕ) (x : Entry DNSQureyWork Event (List Call)) : Option Bytes :=
  match x.event with
  | .read k d => if k = i ∧ d ≠ [] ∧ replyID d = n then some d else none
  | _ => none

/-- The last datagram of zone `i` for the ID `n`. -/
def lastReply (n i : ℕ) (tr : Trace) : Option Bytes := tr.findSome? (replyOf n i)

theorem lastReply_cons_of_none {i : ℕ} {x : Entry DNSQureyWork Event (List Call)}
    (h : replyOf n i x = none) : lastReply n i (x :: tr) = lastReply n i tr := by
  unfold lastReply
  rw [List.findSome?_cons, h]

theorem lastReply_cons_of_some {i : ℕ} {x : Entry DNSQureyWork Event (List Call)} {d : Bytes}
    (h : replyOf n i x = some d) : lastReply n i (x :: tr) = some d := by
  unfold lastReply
  rw [List.findSome?_cons, h]

theorem mem_of_lastReply {i : ℕ} {d : Bytes} (h : lastReply n i tr = some d) :
    d ≠ [] ∧ replyID d = n ∧ ∃ y ∈ tr, y.event = .read i d := by
  obtain ⟨y, hy, hr⟩ := List.exists_of_findSome?_eq_some h
  unfold replyOf at hr
  split at hr
  · next k d' he =>
    split_ifs at hr with hc
    cases hr
    obtain ⟨rfl, hd, hn⟩ := hc
    exact ⟨hd, hn, y, hy, he⟩
  · cases hr

/-- **What a pending query holds**, after the steps `mid` since the one that created it for `q`: it has been
pending all along, and data that may be sent is the last datagram of its zone. -/
structure HeldSince (n : ℕ) (wi : DNSQureyWorkItem) (mid : Trace) (q : Bytes) : Prop where
  uQType : wi.uQType = queryType q
  pending : ∀ y ∈ mid, pending y.before n ≠ none
  data : ∀ (i : ℕ) (item : DNSQueryResultItem), wi.vsDNSQueryResultItems[i]? = some item →
    Usable i item → lastReply n i mid = some item.sDNSData

theorem heldSince_created {d : Bytes} {outs : ℕ → SendOutcome} :
    HeldSince n (.created n (queryType d) (askedFirst zones w d outs)) [] d :=
  ⟨rfl, fun _ hy => absurd hy List.not_mem_nil, fun _ _ hi hu => absurd hu (not_usable_created hi)⟩

/-- After a datagram of a zone, too, data that may be sent is the last datagram of its zone. -/
theorem HeldSince.itemsAfter (h : HeldSince n wi mid q) {k i : ℕ} {d : Bytes} {out : List Call}
    {item : DNSQueryResultItem} (hd : d ≠ []) (hn : replyID d = n)
    (hi : (itemsAfter zones wi k d)[i]? = some item) (hu : Usable i item) :
    lastReply n i (⟨w, .read k d, out⟩ :: mid) = some item.sDNSData := by
  rcases getElem_itemsAfter hi with ⟨hk, hdata⟩ | ⟨hk, hold⟩
  · rw [hdata]
    exact lastReply_cons_of_some (if_pos ⟨hk, hd, hn⟩)
  · have hr : replyOf n i ⟨w, .read k d, out⟩ = none := if_neg fun hc => hk hc.1
    rw [lastReply_cons_of_none hr]
    exact h.data i item hold hu

/-- **One step** keeps it, as long as the query is pending. -/
theorem heldSince_step (h : HeldSince n wi mid q) (hp : pending w n = some wi) (e : Event)
    {wi' : DNSQureyWorkItem} (hp' : pending (step zones e w).1 n = some wi') :
    HeldSince n wi' (⟨w, e, (step zones e w).2⟩ :: mid) q := by
  have hpend : ∀ y ∈ (⟨w, e, (step zones e w).2⟩ : Entry _ _ _) :: mid, pending y.before n ≠ none := by
    refine List.forall_mem_cons.mpr ⟨?_, h.pending⟩
    rw [hp]
    exact Option.some_ne_none wi
  have hkept : (∀ i, replyOf n i ⟨w, e, (step zones e w).2⟩ = none) → wi' = wi →
      HeldSince n wi' (⟨w, e, (step zones e w).2⟩ :: mid) q := by
    rintro hr rfl
    exact ⟨h.uQType, hpend, fun i item hi hu => (lastReply_cons_of_none (hr i)).trans (h.data i item hi hu)⟩
  cases e with
  | recv l d now outs =>
    have hr : ∀ i, replyOf n i ⟨w, .recv l d now outs, (step zones (.recv l d now outs) w).2⟩ = none :=
      fun i => rfl
    cases stepped hp' with
    | kept hp₀ => exact hkept hr (Option.some.inj (hp₀.symm.trans hp))
    | resent l d now outs wi₀ hp₀ hl hn =>
      cases hp₀.symm.trans hp
      refine ⟨h.uQType, hpend, fun i item hi hu => (lastReply_cons_of_none (hr i)).trans ?_⟩
      obtain ⟨item₀, hi₀, hu₀, hd⟩ := usable_resent hi hu
      rw [hd]
      exact h.data i item₀ hi₀ hu₀
    | created l d now outs hp₀ hl hn => cases hp₀.symm.trans hp
  | read k d =>
    by_cases ho : d = [] ∨ replyID d ≠ n
    · refine hkept (fun i => if_neg fun hc => ho.elim hc.2.1 fun hne => hne hc.2.2) ?_
      rw [Other.pending zones w (show Other n (.read k d) from ho), hp] at hp'
      exact (Option.some.inj hp').symm
    obtain ⟨hd, hn⟩ := not_or.mp ho
    obtain rfl := not_not.mp hn
    rw [pending_read hd hp] at hp'
    split_ifs at hp'
    cases hp'
    exact ⟨h.uQType, hpend, fun i item hi hu => h.itemsAfter hd rfl hi hu⟩
  | disconnect k =>
    rw [pending_step] at hp'
    obtain ⟨wi₀, hp₀, rfl⟩ := Option.map_eq_some_iff.mp hp'
    cases hp₀.symm.trans hp
    refine ⟨h.uQType, hpend, fun i item hi hu => ?_⟩
    exact (lastReply_cons_of_none rfl).trans (h.data i item (usable_disconnect hi hu) hu)
  | write k outs =>
    rw [pending_step] at hp'
    exact hkept (fun i => rfl) (Option.some.inj (hp'.symm.trans hp))

/-- A pending query, with the step that created it and what has come since. -/
def Held (n : ℕ) (wi : DNSQureyWorkItem) (tr : Trace) : Prop :=
  ∃ mid c tr₁ q, tr = mid ++ c :: tr₁ ∧ creates n c = some q ∧ HeldSince n wi mid q

theorem held_run (h : Run (step zones) anyStep w₀ tr w) (h0 : Fresh w₀) (hp : pending w n = some wi) :
    Held n wi tr := by
  induction h generalizing wi with
  | start =>
    rw [h0.pending n] at hp
    cases hp
  | @next tr w e _ _ ih =>
    rcases hp₀ : pending w n with _ | wi₀
    · cases stepped hp with
      | created l d now outs hn hl hid =>
        have hc : creates n ⟨w, .recv l d now outs, (step zones (.recv l d now outs) w).2⟩ = some d :=
          if_pos ⟨hl, hid, hn⟩
        exact ⟨[], _, tr, d, rfl, hc, heldSince_created⟩
      | kept h => cases hp₀.symm.trans h
      | resent _ _ _ _ _ h => cases hp₀.symm.trans h
      | replied _ _ _ h => cases hp₀.symm.trans h
      | disconnected _ _ h => cases hp₀.symm.trans h
    · obtain ⟨mid, c, tr₁, q, rfl, hc, hs⟩ := ih hp₀
      exact ⟨_ :: mid, c, tr₁, q, rfl, hc, heldSince_step hs hp₀ e hp⟩

/-- **The data of an answer.** A datagram for the client is sent in a step that is a datagram of a zone, for
a query that has been pending since it was created, and is what one zone sent last for the ID since then, as
`SendResult` rewrites it. -/
theorem answer_data (h : Run (step zones) anyStep w₀ tr w) (h0 : Fresh w₀) {tr' tr₀ : Trace}
    {x : Entry DNSQureyWork Event (List Call)} {ra : ReplyAddr} {out : Bytes} (htr : tr = tr' ++ x :: tr₀)
    (ho : Call.sendTo ra out ∈ x.out) :
    ∃ j d mid c tr₁ q i d', x.event = .read j d ∧ tr₀ = mid ++ c :: tr₁ ∧
      creates (replyID d) c = some q ∧ (∀ y ∈ x :: mid, pending y.before (replyID d) ≠ none) ∧
      lastReply (replyID d) i (x :: mid) = some d' ∧ sendResult zones i (queryType q) d' = some out := by
  obtain ⟨hrun, -, hout⟩ := h.at_entry htr
  obtain ⟨b, e, calls⟩ := x
  rw [hout] at ho
  obtain ⟨j, d, wi, rfl, hd, hp, -, hr⟩ := mem_sendTo_step.mp ho
  obtain ⟨mid, c, tr₁, q, rfl, hc, hs⟩ := held_run hrun h0 hp
  obtain ⟨i, item, hi, hu, hsend⟩ := usable_of_result hr
  have hpend : ∀ y ∈ (⟨b, .read j d, calls⟩ : Entry _ _ _) :: mid, pending y.before (replyID d) ≠ none := by
    refine List.forall_mem_cons.mpr ⟨?_, hs.pending⟩
    rw [hp]
    exact Option.some_ne_none wi
  exact ⟨j, d, mid, c, tr₁, q, i, item.sDNSData, rfl, rfl, hc, hpend, hs.itemsAfter hd rfl hi hu,
    hs.uQType ▸ hsend⟩

/-- **No unexpected answers.** In every run, whatever the upstreams send, the client has been sent no more
answers for an ID than it has sent queries with it. Each datagram it is sent is the last non-empty datagram
of one zone for the ID since the pending query was created, which has been pending all the time since, as
`SendResult` rewrites it. -/
theorem no_unexpected_answers (h : Run (step zones) anyStep w₀ tr w) (h0 : Fresh w₀) :
    (∀ n, (answers n tr).length ≤ queries n tr) ∧
    ∀ tr' x tr₀ ra out, tr = tr' ++ x :: tr₀ → Call.sendTo ra out ∈ x.out →
      ∃ j d mid c tr₁ q i d', x.event = .read j d ∧ tr₀ = mid ++ c :: tr₁ ∧
        creates (replyID d) c = some q ∧ (∀ y ∈ x :: mid, pending y.before (replyID d) ≠ none) ∧
        lastReply (replyID d) i (x :: mid) = some d' ∧ d' ≠ [] ∧
        sendResult zones i (queryType q) d' = some out := by
  refine ⟨fun n => (Nat.le_add_right _ _).trans (answers_le_queries h h0 n), ?_⟩
  intro tr' x tr₀ ra out htr ho
  obtain ⟨j, d, mid, c, tr₁, q, i, d', he, hsplit, hc, hpend, hlast, hsend⟩ := answer_data h h0 htr ho
  exact ⟨j, d, mid, c, tr₁, q, i, d', he, hsplit, hc, hpend, hlast, (mem_of_lastReply hlast).1, hsend⟩

/-- A query, its answer, and the answer once more. -/
theorem no_unexpected_answers_twice : (answers 5 (exec (step [{}])
    [.recv none (query 5 [97] 1) 0 fun _ => .sent, .read 0 (emptyReply 5 [97] 1),
      .read 0 (emptyReply 5 [97] 1)] [] (freshWork 1)).1).length ≤ 1 :=
  ((no_unexpected_answers (run_exec (step [{}]) (freshWork 1) _) (fresh_freshWork 1)).1 5).trans
    (by decide +kernel)

end DnsMultiZone.Work.Replies
