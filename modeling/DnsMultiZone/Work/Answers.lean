import DnsMultiZone.Rfc1035.Questions
import DnsMultiZone.Work.Steps

/-! # Answers and questions

Replies are matched to pending queries by ID alone. If every upstream is honest, so that what it sends
back asks what some query asked that was sent to it on that socket, an answer asks what some query of
this client with its ID asked: the zones only ever receive the client's datagrams, and `DropAddress`
keeps the question. It need not be the query the pending entry was created for: the client may have
used the ID for another question before, or have sent another question under a pending ID, which is
passed on to the zones still waited for.

* `answer_asks`: every answer of every honest run.
* `other_question_answered`: two questions under one ID. -/

namespace DnsMultiZone.Work.Answers

open DnsMultiZone.Lib.BigEndian DnsMultiZone.Lib.Runs
open DnsMultiZone.Config.Address DnsMultiZone.Config.ConfigType
open DnsMultiZone.Rfc1035.Reader DnsMultiZone.Rfc1035.Parse DnsMultiZone.Rfc1035.Drop
open DnsMultiZone.Rfc1035.Questions
open DnsMultiZone.Work.Connect DnsMultiZone.Work.Query DnsMultiZone.Work.Scan DnsMultiZone.Work.Steps

/-- A trace of a work. -/
abbrev Trace := List (Entry DNSQureyWork Event (List Call))

variable {zones : Zones} {w w₀ : DNSQureyWork} {tr : Trace}

/-- The client has sent `q`. -/
def Received (tr : Trace) (q : Bytes) : Prop :=
  ∃ y ∈ tr, ∃ l now outs, y.event = .recv l q now outs

/-- `q` was sent on socket `fd`. -/
def SentOn (tr : Trace) (fd : Fd) (q : Bytes) : Prop := ∃ y ∈ tr, Call.send fd q ∈ y.out

/-- A datagram of an upstream carries the ID, name and type of a query sent on its socket before. -/
def HonestRead (past : Trace) (w : DNSQureyWork) : Event → Prop
  | .read i d => d = [] ∨ ∃ c fd q, w.vsDNSConnects[i]? = some c ∧ c.fdSock = some fd ∧
      SentOn past fd q ∧ asks d = asks q
  | _ => True

/-- **Every upstream is honest.** A query may be replied to late, or more than once. -/
def Honest : Trace → Prop
  | [] => True
  | x :: tr => Honest tr ∧ HonestRead tr x.before x.event

/-- Nothing is pending and nothing queued. -/
structure Fresh (w : DNSQureyWork) : Prop where
  pending : ∀ n, pending w n = none
  queue : ∀ (i : ℕ) (c : DNSConnect), w.vsDNSConnects[i]? = some c → c.lsWriteQueue = []

theorem fresh_freshWork (n : ℕ) : Fresh (freshWork n) := by
  refine ⟨pending_freshWork n, fun i c hc => ?_⟩
  obtain ⟨j, -, rfl⟩ := List.mem_map.mp (List.mem_of_getElem? hc)
  rfl

/-- The datagram of a step that creates a pending query with ID `n`. -/
def creates (n : ℕ) (x : Entry DNSQureyWork Event (List Call)) : Option Bytes :=
  match x.event with
  | .recv _ d _ _ => if 2 ≤ d.length ∧ queryID d = n ∧ pending x.before n = none then some d else none
  | _ => none

/-- The datagram the pending query with ID `n` was created for. -/
def creator (n : ℕ) (tr : Trace) : Option Bytes := tr.findSome? (creates n)

theorem Received.cons {x : Entry DNSQureyWork Event (List Call)} {q : Bytes} (h : Received tr q) :
    Received (x :: tr) q := by
  obtain ⟨y, hy, hq⟩ := h
  exact ⟨y, List.mem_cons_of_mem _ hy, hq⟩

theorem Honest.past {tr' tr₀ : Trace} {x : Entry DNSQureyWork Event (List Call)}
    (h : Honest (tr' ++ x :: tr₀)) : Honest tr₀ ∧ HonestRead tr₀ x.before x.event := by
  induction tr' with
  | nil => exact h
  | cons y tr' ih => exact ih h.1

/-! ### What an answer is made of -/

theorem replyID_eq_asks (d : Bytes) : replyID d = (asks d).1 := by
  unfold replyID Reply.ofDatagram asks parseResponseA parseRequestA
  rcases parseRequestAAndAnswers (assign d) {} with ⟨_ | b, o⟩ <;> rfl

theorem queryID_eq_asks (d : Bytes) : queryID d = (asks d).1 := rfl

/-- The data of item `i` may be sent: it matches, or it is the first zone's and does not. -/
def Usable (i : ℕ) (item : DNSQueryResultItem) : Prop :=
  item.eState = .match ∨ (i = 0 ∧ item.eState = .notMatch)

theorem asks_sendResult {i q : ℕ} {d out : Bytes} (h : sendResult zones i q d = some out) :
    asks out = asks d := by
  rcases sendResult_cases h with rfl | hdrop
  · rfl
  · exact asks_dropAddress hdrop

/-- **What the client is sent** is the data of an item that may be sent, as rewritten. -/
theorem usable_of_result {items : List DNSQueryResultItem} {c q : ℕ} {out : Bytes}
    (h : (scan items c).1.result zones q items = some out) :
    ∃ i item, items[i]? = some item ∧ Usable i item ∧
      sendResult zones i q item.sDNSData = some out := by
  have hget : ∀ {i s}, stateAt items i = some s →
      ∃ item, items[i]? = some item ∧ item.eState = s := fun hs => Option.map_eq_some_iff.mp hs
  rcases scan_cases items c with ⟨j, -, -, -, he⟩ | ⟨j, -, hs, -, he⟩ | ⟨-, hs, he⟩ | ⟨-, -, he⟩
  all_goals rw [he] at h
  · cases h
  · obtain ⟨item, hi, hm⟩ := hget hs
    refine ⟨j, item, hi, Or.inl hm, ?_⟩
    unfold Outcome.result at h
    dsimp only at h
    rw [hi] at h
    exact h
  · obtain ⟨item, hi, hm⟩ := hget hs
    refine ⟨0, item, hi, Or.inr ⟨rfl, hm⟩, ?_⟩
    unfold Outcome.result at h
    dsimp only at h
    rw [hi] at h
    exact h
  · cases h

theorem getElem_itemsAfter {wi : DNSQureyWorkItem} {i j : ℕ} {d : Bytes} {item : DNSQueryResultItem}
    (h : (itemsAfter zones wi i d)[j]? = some item) :
    (i = j ∧ item.sDNSData = d) ∨ (i ≠ j ∧ wi.vsDNSQueryResultItems[j]? = some item) := by
  unfold itemsAfter replied at h
  rw [List.getElem?_modify] at h
  obtain ⟨item', hi, he⟩ := Option.map_eq_some_iff.mp h
  by_cases hij : i = j
  · rw [if_pos hij] at he
    subst he
    refine Or.inl ⟨hij, ?_⟩
    unfold judge
    dsimp only
    split_ifs <;> rfl
  · rw [if_neg hij] at he
    subst he
    exact Or.inr ⟨hij, hi⟩

theorem askZone_zero {q : ℕ} {d : Bytes} {outs : ℕ → SendOutcome} {c : DNSConnect} :
    (askZone zones q d outs 0 c).eState ≠ .notMatch := by
  unfold askZone sendOrError
  rw [if_neg (by simp)]
  dsimp only
  split_ifs <;> simp

theorem not_usable_created {n : ℕ} {d : Bytes} {outs : ℕ → SendOutcome} {i : ℕ}
    {item : DNSQueryResultItem}
    (h : (DNSQureyWorkItem.created n (queryType d)
      (askedFirst zones w d outs)).vsDNSQueryResultItems[i]? = some item) : ¬ Usable i item := by
  have hs : ∀ s, item.eState = s → ∃ c, (askZone zones (queryType d) d outs i c).eState = s := by
    intro s he
    obtain ⟨c, -, hc⟩ := stateAt_askedFirst.mp (show stateAt _ i = some s by unfold stateAt; rw [h, ← he]; rfl)
    exact ⟨c, hc⟩
  rintro (hm | ⟨rfl, hm⟩)
  · obtain ⟨c, hc⟩ := hs _ hm
    exact askZone_ne_match hc
  · obtain ⟨c, hc⟩ := hs _ hm
    exact askZone_zero hc

theorem usable_resent {wi : DNSQureyWorkItem} {d : Bytes} {outs : ℕ → SendOutcome} {i : ℕ}
    {item : DNSQueryResultItem}
    (h : (wi.resent (askedAgain w wi d outs)).vsDNSQueryResultItems[i]? = some item)
    (hu : Usable i item) :
    ∃ item', wi.vsDNSQueryResultItems[i]? = some item' ∧ Usable i item' ∧
      item.sDNSData = item'.sDNSData := by
  unfold DNSQureyWorkItem.resent at h
  rw [List.getElem?_mapIdx] at h
  obtain ⟨item', hi, rfl⟩ := Option.map_eq_some_iff.mp h
  refine ⟨item', hi, ?_, rfl⟩
  rw [getElem?_askedAgain, hi] at hu
  rcases hc : w.vsDNSConnects[i]? with _ | c <;> rw [hc] at hu
  · exact hu
  · unfold Usable at hu ⊢
    simp only [Option.map_some, Option.getD_some, askAgain_state] at hu
    by_cases hw : item'.eState = .wait
    · rw [if_pos hw] at hu
      split_ifs at hu <;> simp at hu
    · rwa [if_neg hw] at hu

theorem usable_disconnect {wi : DNSQureyWorkItem} {i j : ℕ} {item : DNSQueryResultItem}
    (h : (wi.disconnect i).vsDNSQueryResultItems[j]? = some item) (hu : Usable j item) :
    wi.vsDNSQueryResultItems[j]? = some item := by
  unfold DNSQureyWorkItem.disconnect at h
  rw [List.getElem?_modify] at h
  obtain ⟨item', hi, rfl⟩ := Option.map_eq_some_iff.mp h
  unfold Usable at hu
  by_cases hij : i = j
  · simp only [if_pos hij, DNSQueryResultItem.disconnect] at hu ⊢
    by_cases hw : item'.eState = .wait
    · simp [if_pos hw] at hu
    · rw [if_neg hw]
      exact hi
  · rw [if_neg hij]
    exact hi

/-! ### Honest runs -/

/-- **In an honest run** what is queued or sent upstream is the client's, and data that may be sent for
an ID asks what a query with that ID asked. -/
structure Traced (tr : Trace) (w : DNSQureyWork) : Prop where
  queued : ∀ (i : ℕ) (c : DNSConnect) (x : Bytes), w.vsDNSConnects[i]? = some c → x ∈ c.lsWriteQueue →
    Received tr x
  sent : ∀ fd x, SentOn tr fd x → Received tr x
  items : ∀ n wi, pending w n = some wi → ∀ (i : ℕ) (item : DNSQueryResultItem),
    wi.vsDNSQueryResultItems[i]? = some item → Usable i item →
      ∃ q, Received tr q ∧ queryID q = n ∧ asks item.sDNSData = asks q
  created : ∀ n wi, pending w n = some wi → creator n tr ≠ none

/-- A datagram of an honest upstream asks what a query with its ID asked. -/
theorem Traced.read (h : Traced tr w) {i : ℕ} {d : Bytes} (hh : HonestRead tr w (.read i d))
    (hd : d ≠ []) : ∃ q, Received tr q ∧ queryID q = replyID d ∧ asks d = asks q := by
  rcases hh with hn | ⟨c, fd, q, -, -, hs, ha⟩
  · exact absurd hn hd
  · refine ⟨q, h.sent fd q hs, ?_, ha⟩
    rw [queryID_eq_asks, replyID_eq_asks, ha]

theorem creator_cons {n : ℕ} {x : Entry DNSQureyWork Event (List Call)} (h : creator n tr ≠ none) :
    creator n (x :: tr) ≠ none := by
  unfold creator at h ⊢
  rw [List.findSome?_cons]
  rcases creates n x with _ | d
  · exact h
  · simp

theorem traced_step (h : Traced tr w) (e : Event) (hh : HonestRead tr w e) :
    Traced (⟨w, e, (step zones e w).2⟩ :: tr) (step zones e w).1 := by
  have hrecv : ∀ {x}, (∃ l now outs, e = .recv l x now outs) →
      Received (⟨w, e, (step zones e w).2⟩ :: tr) x :=
    fun hx => ⟨_, List.mem_cons_self, hx⟩
  refine ⟨?_, ?_, ?_, ?_⟩
  · intro i c x hc hx
    obtain ⟨c₀, hc₀, hk⟩ := (conns_step zones e w).2 i c hc
    rcases hk.queue x hx with hx | hx
    · exact (h.queued i c₀ x hc₀ hx).cons
    · exact hrecv hx
  · rintro fd x ⟨y, hy, hx⟩
    rcases List.mem_cons.mp hy with rfl | hy
    · obtain ⟨i, c, hc, -, hq | hq⟩ := mem_send_step hx
      · exact (h.queued i c x hc hq).cons
      · exact hrecv hq
    · exact (h.sent fd x ⟨y, hy, hx⟩).cons
  · intro n wi hp i item hi hu
    have hold : ∀ {wi₀ item₀}, pending w n = some wi₀ →
        wi₀.vsDNSQueryResultItems[i]? = some item₀ → Usable i item₀ →
        ∃ q, Received (⟨w, e, (step zones e w).2⟩ :: tr) q ∧ queryID q = n ∧
          asks item₀.sDNSData = asks q := by
      intro wi₀ item₀ hp₀ hi₀ hu₀
      obtain ⟨q, hq, hn, ha⟩ := h.items n wi₀ hp₀ i item₀ hi₀ hu₀
      exact ⟨q, hq.cons, hn, ha⟩
    cases stepped hp with
    | kept hp₀ => exact hold hp₀ hi hu
    | resent l d now outs wi₀ hp₀ hl hn =>
      obtain ⟨item₀, hi₀, hu₀, hd⟩ := usable_resent hi hu
      rw [hd]
      exact hold hp₀ hi₀ hu₀
    | created l d now outs hp₀ hl hn => exact absurd hu (not_usable_created hi)
    | replied k d wi₀ hp₀ hd hn hs =>
      rcases getElem_itemsAfter hi with ⟨-, hdata⟩ | ⟨-, hi₀⟩
      · obtain ⟨q, hq, hid, ha⟩ := h.read hh hd
        exact ⟨q, hq.cons, by rw [hid, hn], by rw [hdata, ha]⟩
      · exact hold hp₀ hi₀ hu
    | disconnected k wi₀ hp₀ => exact hold hp₀ (usable_disconnect hi hu) hu
  · intro n wi hp
    cases stepped hp with
    | kept hp₀ => exact creator_cons (h.created n _ hp₀)
    | resent l d now outs wi₀ hp₀ hl hn => exact creator_cons (h.created n _ hp₀)
    | created l d now outs hp₀ hl hn =>
      unfold creator creates
      rw [List.findSome?_cons]
      simp [hl, hn, hp₀]
    | replied k d wi₀ hp₀ hd hn hs => exact creator_cons (h.created n _ hp₀)
    | disconnected k wi₀ hp₀ => exact creator_cons (h.created n _ hp₀)

theorem traced_run (h : Run (step zones) anyStep w₀ tr w) (h0 : Fresh w₀) (hh : Honest tr) :
    Traced tr w := by
  induction h with
  | start =>
    refine ⟨fun i c x hc hx => ?_, ?_, fun n wi hp => ?_, fun n wi hp => ?_⟩
    · rw [h0.queue i c hc] at hx
      cases hx
    · rintro fd x ⟨y, hy, -⟩
      cases hy
    · rw [h0.pending n] at hp
      cases hp
    · rw [h0.pending n] at hp
      cases hp
  | next e _ _ ih => exact traced_step (ih hh.1) e hh.2

/-- **An answer asks what a query of the client with its ID asked**, in every run in which every
upstream is honest; and what the query asked for which the pending entry was created, if every query
of the client with this ID asked the same. -/
theorem answer_asks (h : Run (step zones) anyStep w₀ tr w) (h0 : Fresh w₀) (hh : Honest tr)
    {tr' tr₀ : Trace} {x : Entry DNSQureyWork Event (List Call)} {i : ℕ} {d out : Bytes}
    {ra : ReplyAddr} (htr : tr = tr' ++ x :: tr₀) (hx : x.event = .read i d)
    (ho : Call.sendTo ra out ∈ x.out) :
    ∃ q q₀, creator (replyID d) tr₀ = some q₀ ∧ Received tr₀ q ∧ queryID q = replyID d ∧
      asks out = asks q ∧
      ((∀ q', Received tr₀ q' → queryID q' = replyID d → asks q' = asks q₀) → asks out = asks q₀) := by
  subst htr
  obtain ⟨hrun, -, hout⟩ := h.at_entry rfl
  obtain ⟨hpast, hread⟩ := hh.past
  have ht := traced_run hrun h0 hpast
  rw [hout, hx] at ho
  rw [hx] at hread
  obtain ⟨i', d', wi, he, hd, hp, -, hr⟩ := mem_sendTo_step.mp ho
  cases he
  obtain ⟨q₀, hq₀⟩ := Option.ne_none_iff_exists'.mp (ht.created _ _ hp)
  obtain ⟨j, item, hi, hu, hs⟩ := usable_of_result hr
  have ha := asks_sendResult hs
  have hfrom : ∃ q, Received tr₀ q ∧ queryID q = replyID d ∧ asks item.sDNSData = asks q := by
    rcases getElem_itemsAfter hi with ⟨-, hdata⟩ | ⟨-, hold⟩
    · rw [hdata]
      exact ht.read hread hd
    · exact ht.items _ wi hp j item hold hu
  obtain ⟨q, hq, hid, hqa⟩ := hfrom
  exact ⟨q, q₀, hq₀, hq, hid, ha.trans hqa, fun hsame => (ha.trans hqa).trans (hsame q hq hid)⟩

/-- A question that two zones are asked and the first answers; then another one under the same ID, whose send
to the first zone fails. -/
def reusedID : List Event :=
  [.recv none (query 5 [97] 16) 0 fun _ => .sent, .read 0 (emptyReply 5 [97] 16),
    .recv none (query 5 [98] 16) 1 fun i => if i = 0 then .failed else .sent]

/-- The second zone's reply to the first question comes late and answers the second: it asks what a query
received before asked, which is not the query it was sent for. -/
theorem answer_asks_reusedID :
    creator 5 (exec (step [{}, {}]) reusedID [] (freshWork 2)).1 = some (query 5 [98] 16) ∧
    asks (emptyReply 5 [97] 16) ≠ asks (query 5 [98] 16) ∧
    ∃ q, Received (exec (step [{}, {}]) reusedID [] (freshWork 2)).1 q ∧ queryID q = 5 ∧
      asks (emptyReply 5 [97] 16) = asks q := by
  have h := run_exec (step [{}, {}]) (freshWork 2) (reusedID ++ [.read 1 (emptyReply 5 [97] 16)])
  have hh : Honest (exec (step [{}, {}]) (reusedID ++ [.read 1 (emptyReply 5 [97] 16)]) []
      (freshWork 2)).1 := by
    refine ⟨⟨⟨⟨trivial, trivial⟩, Or.inr ⟨⟨0, some 10, []⟩, 10, query 5 [97] 16, by decide +kernel, rfl,
        ⟨_, List.mem_cons_self, by decide +kernel⟩, by decide +kernel⟩⟩, trivial⟩,
      Or.inr ⟨⟨1, some 11, []⟩, 11, query 5 [97] 16, by decide +kernel, rfl, ?_, by decide +kernel⟩⟩
    exact ⟨_, List.mem_cons_of_mem _ (List.mem_cons_of_mem _ List.mem_cons_self), by decide +kernel⟩
  have hID : replyID (emptyReply 5 [97] 16) = 5 := by decide +kernel
  obtain ⟨q, q₀, hcreator, hq, hid, ha, -⟩ := answer_asks h (fresh_freshWork 2) hh (List.nil_append _).symm rfl
    (show Call.sendTo { ssClient := .inet 0x0A000002 5353 } (emptyReply 5 [97] 16) ∈ _ by decide +kernel)
  rw [hID] at hcreator hid
  exact ⟨by decide +kernel, by decide +kernel, q, hq, hid, ha⟩

/-- **Answers ask what the query asked** that their pending entry was created for. -/
def AnswersAsked (tr : Trace) : Prop :=
  ∀ tr' x tr₀ i d ra out q₀, tr = tr' ++ x :: tr₀ → x.event = .read i d →
    Call.sendTo ra out ∈ x.out → creator (replyID d) tr₀ = some q₀ → (asks out).2 = (asks q₀).2

/-- The datagrams of the upstreams. -/
def reads (tr : Trace) : List (ℕ × Bytes) :=
  tr.filterMap fun x => match x.event with
    | .read i d => some (i, d)
    | _ => none

/-- A client sends two questions under one ID. The second is passed on to the zone still waited for, and
its reply, the only datagram of an upstream, answers the first. -/
theorem other_question_answered : ¬ ∀ (zones : Zones) (w₀ w : DNSQureyWork) (tr : Trace), Fresh w₀ →
    Run (step zones) anyStep w₀ tr w → Honest tr → (reads tr).Nodup → AnswersAsked tr := by
  intro h
  have ha := h _ _ _ _ (fresh_freshWork 1) (run_exec (step [{}]) (freshWork 1)
    [.recv none (query 5 [97] 1) 0 fun _ => .sent, .recv none (query 5 [98] 1) 0 fun _ => .sent,
      .read 0 (emptyReply 5 [98] 1)])
    ⟨⟨⟨trivial, trivial⟩, trivial⟩, Or.inr ⟨⟨0, some 10, []⟩, 10, query 5 [98] 1, by decide +kernel, rfl,
      ⟨_, List.mem_cons_self, by decide +kernel⟩, by decide +kernel⟩⟩ (List.nodup_singleton _)
  have hq := ha [] _ _ 0 (emptyReply 5 [98] 1) { ssClient := .inet 0x0A000002 5353 }
    (emptyReply 5 [98] 1) (query 5 [97] 1) rfl rfl (by decide +kernel) (by decide +kernel)
  exact absurd hq (by decide +kernel)

end DnsMultiZone.Work.Answers
