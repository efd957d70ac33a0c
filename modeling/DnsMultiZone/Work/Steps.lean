import DnsMultiZone.Work.Scan

/-! # What one event does to a work

Every invariant of a work is proved from the lemmas of this module, which say once what an event can do.

* `pending_step`, `stepped`: what becomes of the pending query with ID `n`.
* `mem_sendTo_step`: a datagram goes to the client only when a reply decides a pending query.
* `conns_step`, `mem_queue_step`, `mem_send_step`: the sockets stay as they are, and what is queued or
  sent on them are the client's datagrams.
* `stateAt_resent`, `stateAt_created`, `stateAt_disconnect`, `stateAt_replied`: the states of the zones
  after each of the four things that change them. -/

namespace DnsMultiZone.Work.Steps

open DnsMultiZone.Lib.BigEndian DnsMultiZone.Lib.Assoc
open DnsMultiZone.Config.Address DnsMultiZone.Config.ConfigType
open DnsMultiZone.Work.Connect DnsMultiZone.Work.Query DnsMultiZone.Work.Scan

/-- The pending query with ID `n`. -/
def pending (w : DNSQureyWork) (n : ℕ) : Option DNSQureyWorkItem := w.mwDNSQureyWorkItems.lookup n

/-- The ID a reply is filed under. -/
def replyID (sDNSData : Bytes) : ℕ := (Reply.ofDatagram sDNSData).nID

/-- What the zones make of a new query. -/
def askedFirst (zones : Zones) (w : DNSQureyWork) (d : Bytes) (outs : ℕ → SendOutcome) : List Asked :=
  w.vsDNSConnects.mapIdx (askZone zones (queryType d) d outs)

/-- What the zones make of a pending query that comes again. -/
def askedAgain (w : DNSQureyWork) (wi : DNSQureyWorkItem) (d : Bytes) (outs : ℕ → SendOutcome) :
    List Asked :=
  resend d outs wi.vsDNSQueryResultItems w.vsDNSConnects

/-- The items after a datagram of zone `i`. -/
def itemsAfter (zones : Zones) (wi : DNSQureyWorkItem) (i : ℕ) (d : Bytes) :
    List DNSQueryResultItem :=
  replied zones i (Reply.ofDatagram d) wi

/-- The scan after a datagram of zone `i`. -/
def scanAfter (zones : Zones) (wi : DNSQureyWorkItem) (i : ℕ) (d : Bytes) : Outcome × ℕ :=
  scan (itemsAfter zones wi i d) wi.nMaxDoneIndex

/-- The pending query with ID `n` after an event. -/
def pendingAfter (zones : Zones) (w : DNSQureyWork) (n : ℕ) : Event → Option DNSQureyWorkItem
  | .recv _ d _ outs =>
    if d.length < 2 ∨ queryID d ≠ n then pending w n
    else match pending w n with
      | some wi => some (wi.resent (askedAgain w wi d outs))
      | none => some (.created n (queryType d) (askedFirst zones w d outs))
  | .read i d =>
    if d = [] ∨ replyID d ≠ n then pending w n
    else match pending w n with
      | some wi =>
        if (scanAfter zones wi i d).1 = .waiting then
          some { wi with
            vsDNSQueryResultItems := itemsAfter zones wi i d
            nMaxDoneIndex := (scanAfter zones wi i d).2 }
        else none
      | none => none
  | .disconnect i => (pending w n).map (·.disconnect i)
  | .write _ _ => pending w n

/-- **What becomes of a pending query.** -/
theorem pending_step (zones : Zones) (e : Event) (w : DNSQureyWork) (n : ℕ) :
    pending (step zones e w).1 n = pendingAfter zones w n e := by
  cases e with
  | recv l d now outs =>
    unfold step pendingAfter DNSQureyWork.serverNewWork
    by_cases hl : d.length < 2
    · simp [hl, pending]
    simp only [hl, if_false, false_or]
    by_cases hn : queryID d = n
    · subst hn
      rcases hp : pending w (queryID d) with _ | wi <;> unfold pending at hp <;>
        simp [hp, pending, askedFirst, askedAgain]
    · rw [if_pos hn]
      rcases hp : w.mwDNSQureyWorkItems.lookup (queryID d) with _ | wi <;>
        simp [pending, AList.lookup_insert_ne (Ne.symm hn)]
  | read i d =>
    unfold step pendingAfter DNSQureyWork.dnsQueryResult DNSQureyWork.finish
    by_cases hd : d = []
    · simp [hd]
    have hl : d.length ≠ 0 := by simpa using hd
    simp only [hl, if_false, hd, false_or]
    by_cases hn : replyID d = n
    · subst hn
      rcases hp : pending w (replyID d) with _ | wi <;> unfold pending replyID at hp
      · simp [hp, pending, replyID]
      · simp only [hp, replyID, scanAfter, itemsAfter, ne_eq, not_true, if_false]
        by_cases hs : (scan (replied zones i (Reply.ofDatagram d) wi) wi.nMaxDoneIndex).1 = .waiting <;>
          simp [hs, pending]
    · rw [if_pos hn]
      rcases hp : w.mwDNSQureyWorkItems.lookup (Reply.ofDatagram d).nID with _ | wi
      · rfl
      · unfold replyID at hn
        by_cases hs : (scan (replied zones i (Reply.ofDatagram d) wi) wi.nMaxDoneIndex).1 = .waiting <;>
          simp [hs, pending, AList.lookup_insert_ne (Ne.symm hn), AList.lookup_erase_ne (Ne.symm hn)]
  | disconnect i => simp [step, pendingAfter, pending, DNSQureyWork.dnsQueryDisconnect]
  | write i outs => rfl

theorem pending_recv_some {zones : Zones} {w : DNSQureyWork} {l : Option PktInfo} {d : Bytes} {now : ℕ}
    {outs : ℕ → SendOutcome} {wi : DNSQureyWorkItem} (hl : 2 ≤ d.length)
    (h : pending w (queryID d) = some wi) :
    pending (step zones (.recv l d now outs) w).1 (queryID d) =
      some (wi.resent (askedAgain w wi d outs)) := by
  rw [pending_step]
  show (if _ then _ else _) = _
  rw [if_neg (fun hc => hc.elim (not_lt.mpr hl) fun hne => hne rfl), h]

theorem pending_recv_none {zones : Zones} {w : DNSQureyWork} {l : Option PktInfo} {d : Bytes} {now : ℕ}
    {outs : ℕ → SendOutcome} (hl : 2 ≤ d.length) (h : pending w (queryID d) = none) :
    pending (step zones (.recv l d now outs) w).1 (queryID d) =
      some (.created (queryID d) (queryType d) (askedFirst zones w d outs)) := by
  rw [pending_step]
  show (if _ then _ else _) = _
  rw [if_neg (fun hc => hc.elim (not_lt.mpr hl) fun hne => hne rfl), h]

theorem pending_read {zones : Zones} {w : DNSQureyWork} {i : ℕ} {d : Bytes} {wi : DNSQureyWorkItem}
    (hd : d ≠ []) (h : pending w (replyID d) = some wi) :
    pending (step zones (.read i d) w).1 (replyID d) =
      if (scanAfter zones wi i d).1 = .waiting then
        some { wi with
          vsDNSQueryResultItems := itemsAfter zones wi i d
          nMaxDoneIndex := (scanAfter zones wi i d).2 }
      else none := by
  rw [pending_step]
  show (if _ then _ else _) = _
  rw [if_neg (by simp [hd]), h]

/-- How a query is pending after an event: it was, or it was asked again, created, replied to without
a decision, or an upstream failed. -/
inductive Stepped (zones : Zones) (w : DNSQureyWork) (n : ℕ) : Event → DNSQureyWorkItem → Prop
  | kept {e : Event} {wi : DNSQureyWorkItem} (h : pending w n = some wi) : Stepped zones w n e wi
  | resent (l : Option PktInfo) (d : Bytes) (now : ℕ) (outs : ℕ → SendOutcome) (wi : DNSQureyWorkItem)
      (h : pending w n = some wi) (hl : 2 ≤ d.length) (hn : queryID d = n) :
      Stepped zones w n (.recv l d now outs) (wi.resent (askedAgain w wi d outs))
  | created (l : Option PktInfo) (d : Bytes) (now : ℕ) (outs : ℕ → SendOutcome)
      (h : pending w n = none) (hl : 2 ≤ d.length) (hn : queryID d = n) :
      Stepped zones w n (.recv l d now outs)
        (.created n (queryType d) (askedFirst zones w d outs))
  | replied (i : ℕ) (d : Bytes) (wi : DNSQureyWorkItem) (h : pending w n = some wi) (hd : d ≠ [])
      (hn : replyID d = n) (hs : (scanAfter zones wi i d).1 = .waiting) :
      Stepped zones w n (.read i d) { wi with
        vsDNSQueryResultItems := itemsAfter zones wi i d
        nMaxDoneIndex := (scanAfter zones wi i d).2 }
  | disconnected (i : ℕ) (wi : DNSQureyWorkItem) (h : pending w n = some wi) :
      Stepped zones w n (.disconnect i) (wi.disconnect i)

theorem stepped {zones : Zones} {e : Event} {w : DNSQureyWork} {n : ℕ} {wi' : DNSQureyWorkItem}
    (h : pending (step zones e w).1 n = some wi') : Stepped zones w n e wi' := by
  rw [pending_step] at h
  cases e with
  | recv l d now outs =>
    unfold pendingAfter at h
    dsimp only at h
    split_ifs at h with hc
    · exact .kept h
    · obtain ⟨hl, hn⟩ := not_or.mp hc
      split at h
      · next wi hp =>
        cases h
        exact .resent l d now outs wi hp (not_lt.mp hl) (not_not.mp hn)
      · next hp =>
        cases h
        exact .created l d now outs hp (not_lt.mp hl) (not_not.mp hn)
  | read i d =>
    unfold pendingAfter at h
    dsimp only at h
    split_ifs at h with hc
    · exact .kept h
    · obtain ⟨hd, hn⟩ := not_or.mp hc
      split at h
      · next wi hp =>
        split_ifs at h with hs
        cases h
        exact .replied i d wi hp hd (not_not.mp hn) hs
      · cases h
  | disconnect i =>
    obtain ⟨wi, hp, rfl⟩ := Option.map_eq_some_iff.mp h
    exact .disconnected i wi hp
  | write i outs => exact .kept h

/-- A pending query was pending, or is asked by the event. -/
theorem pending_or_asked {zones : Zones} {e : Event} {w : DNSQureyWork} {n : ℕ}
    (h : pending (step zones e w).1 n ≠ none) : pending w n ≠ none ∨
      ∃ l d now outs, e = .recv l d now outs ∧ 2 ≤ d.length ∧ queryID d = n := by
  obtain ⟨wi', hp⟩ := Option.ne_none_iff_exists'.mp h
  have hsome : ∀ {wi}, pending w n = some wi → pending w n ≠ none := fun hwi => by simp [hwi]
  cases stepped hp with
  | kept hwi => exact Or.inl (hsome hwi)
  | resent l d now outs wi hwi hl hn => exact Or.inl (hsome hwi)
  | created l d now outs hno hl hn => exact Or.inr ⟨l, d, now, outs, rfl, hl, hn⟩
  | replied i d wi hwi hd hn hs => exact Or.inl (hsome hwi)
  | disconnected i wi hwi => exact Or.inl (hsome hwi)

/-! ### Calls -/

/-- **A datagram of an upstream** is dropped, leaves a pending query waiting, or decides it. -/
theorem step_read (zones : Zones) (i : ℕ) (d : Bytes) (w : DNSQureyWork) :
    ((d = [] ∨ pending w (replyID d) = none) ∧ step zones (.read i d) w = (w, [])) ∨
    ∃ wi, d ≠ [] ∧ pending w (replyID d) = some wi ∧
      (((scanAfter zones wi i d).1 = .waiting ∧
        step zones (.read i d) w = ({ w with
          mwDNSQureyWorkItems := w.mwDNSQureyWorkItems.insert (replyID d) { wi with
            vsDNSQueryResultItems := itemsAfter zones wi i d
            nMaxDoneIndex := (scanAfter zones wi i d).2 } }, [])) ∨
      ((scanAfter zones wi i d).1 ≠ .waiting ∧
        step zones (.read i d) w = ((w.finish (replyID d)).1,
          ((scanAfter zones wi i d).1.result zones wi.uQType (itemsAfter zones wi i d)).toList.map
            (Call.sendTo w.raReply) ++ (w.finish (replyID d)).2))) := by
  unfold step DNSQureyWork.dnsQueryResult
  dsimp only
  by_cases hd : d = []
  · exact Or.inl ⟨Or.inl hd, by rw [if_pos (by simpa using hd)]⟩
  rw [if_neg (by simpa using hd)]
  rcases hp : pending w (replyID d) with _ | wi
  · refine Or.inl ⟨Or.inr rfl, ?_⟩
    unfold pending replyID at hp
    rw [hp]
  · refine Or.inr ⟨wi, hd, rfl, ?_⟩
    unfold pending replyID at hp
    rw [hp]
    by_cases hs : (scanAfter zones wi i d).1 = .waiting
    · exact Or.inl ⟨hs, if_pos hs⟩
    · exact Or.inr ⟨hs, if_neg hs⟩

/-- An asked zone is sent the datagram or left alone. -/
inductive AskedBy (d : Bytes) (c : DNSConnect) : Asked → Prop
  | left (s : EnumState) : AskedBy d c ⟨s, c, []⟩
  | sent (o : SendOutcome) : AskedBy d c (sendOrError o d .wait c)

theorem askedFirst_get {zones : Zones} {w : DNSQureyWork} {d : Bytes} {outs : ℕ → SendOutcome} {i : ℕ}
    {a : Asked} (h : (askedFirst zones w d outs)[i]? = some a) :
    ∃ c, w.vsDNSConnects[i]? = some c ∧ a = askZone zones (queryType d) d outs i c := by
  unfold askedFirst at h
  rw [List.getElem?_mapIdx] at h
  obtain ⟨c, hc, rfl⟩ := Option.map_eq_some_iff.mp h
  exact ⟨c, hc, rfl⟩

theorem askedBy_askZone (zones : Zones) (q : ℕ) (d : Bytes) (outs : ℕ → SendOutcome) (i : ℕ)
    (c : DNSConnect) : AskedBy d c (askZone zones q d outs i c) := by
  unfold askZone
  split_ifs
  · exact .left _
  · exact .sent _

theorem getElem?_askedAgain (w : DNSQureyWork) (wi : DNSQureyWorkItem) (d : Bytes)
    (outs : ℕ → SendOutcome) (i : ℕ) :
    (askedAgain w wi d outs)[i]? = (w.vsDNSConnects[i]?).map fun c =>
      match wi.vsDNSQueryResultItems[i]? with
      | some item => askAgain d (outs i) item c
      | none => ⟨.error, c, []⟩ :=
  List.getElem?_mapIdx

theorem askedAgain_get {w : DNSQureyWork} {wi : DNSQureyWorkItem} {d : Bytes}
    {outs : ℕ → SendOutcome} {i : ℕ} {a : Asked} (h : (askedAgain w wi d outs)[i]? = some a) :
    ∃ c, w.vsDNSConnects[i]? = some c ∧ AskedBy d c a := by
  rw [getElem?_askedAgain] at h
  obtain ⟨c, hc, rfl⟩ := Option.map_eq_some_iff.mp h
  refine ⟨c, hc, ?_⟩
  split
  · unfold askAgain
    split_ifs
    · exact .sent _
    · exact .left _
  · exact .left _

/-- **A datagram of the client** asks each zone, or none. -/
theorem step_recv (zones : Zones) (l : Option PktInfo) (d : Bytes) (now : ℕ)
    (outs : ℕ → SendOutcome) (w : DNSQureyWork) :
    ((step zones (.recv l d now outs) w).1.vsDNSConnects = w.vsDNSConnects ∧
      (step zones (.recv l d now outs) w).2 = []) ∨
    ∃ asked : List Asked, asked.length = w.vsDNSConnects.length ∧
      (∀ (i : ℕ) (a : Asked), asked[i]? = some a →
        ∃ c, w.vsDNSConnects[i]? = some c ∧ AskedBy d c a) ∧
      (step zones (.recv l d now outs) w).1.vsDNSConnects = asked.map (·.conn) ∧
      (step zones (.recv l d now outs) w).2 = asked.flatMap (·.calls) := by
  by_cases hl : d.length < 2
  · left
    simp [step, DNSQureyWork.serverNewWork, hl]
  · right
    rcases hp : w.mwDNSQureyWorkItems.lookup (queryID d) with _ | wi
    · refine ⟨askedFirst zones w d outs, by simp [askedFirst], fun i a ha => ?_, ?_⟩
      · obtain ⟨c, hc, rfl⟩ := askedFirst_get ha
        exact ⟨c, hc, askedBy_askZone _ _ _ _ _ _⟩
      · simp [step, DNSQureyWork.serverNewWork, hl, hp, askedFirst]
    · refine ⟨askedAgain w wi d outs, by simp [askedAgain, resend], fun i a ha => askedAgain_get ha, ?_⟩
      simp [step, DNSQureyWork.serverNewWork, hl, hp, askedAgain]

/-- The calls of the other events: datagrams on the sockets, and `epoll_ctl`. -/
theorem mem_calls_step {zones : Zones} {e : Event} {w : DNSQureyWork} {x : Call}
    (h : x ∈ (step zones e w).2) (he : ∀ i d, e ≠ .read i d) :
    ∃ (i : ℕ) (c : DNSConnect) (fd : Fd), w.vsDNSConnects[i]? = some c ∧ c.fdSock = some fd ∧
      ((∃ d, x = .send fd d ∧ (d ∈ c.lsWriteQueue ∨ ∃ l now outs, e = .recv l d now outs)) ∨
        (∃ b, x = .mod fd b) ∨ (x = .del fd ∧ e = .disconnect i)) := by
  cases e with
  | recv l d now outs =>
    rcases step_recv zones l d now outs w with ⟨-, hc⟩ | ⟨asked, -, hget, -, hc⟩
    · rw [hc] at h
      cases h
    · rw [hc] at h
      obtain ⟨a, ha, hx⟩ := List.mem_flatMap.mp h
      obtain ⟨i, hi⟩ := List.getElem?_of_mem ha
      obtain ⟨c, hc', hac⟩ := hget i a hi
      cases hac with
      | left s => cases hx
      | sent o =>
        obtain ⟨fd, hf, rfl | rfl⟩ := DNSConnect.mem_calls_sendDNSQueryBuffer hx
        · exact ⟨i, c, fd, hc', hf, Or.inl ⟨d, rfl, Or.inr ⟨l, now, outs, rfl⟩⟩⟩
        · exact ⟨i, c, fd, hc', hf, Or.inr (Or.inl ⟨_, rfl⟩)⟩
  | read i d => exact absurd rfl (he i d)
  | disconnect i =>
    have h : x ∈ (w.vsDNSConnects[i]?).elim [] (·.removefd) := h
    rcases hc : w.vsDNSConnects[i]? with _ | c <;> rw [hc] at h
    · cases h
    · have h : x ∈ c.fdSock.elim [] fun fd => [Call.del fd] := h
      rcases hf : c.fdSock with _ | fd <;> rw [hf] at h
      · cases h
      · exact ⟨i, c, fd, hc, hf, Or.inr (Or.inr ⟨List.mem_singleton.mp h, rfl⟩)⟩
  | write i outs =>
    have h : x ∈ (w.vsDNSConnects[i]?).elim [] fun c => (c.write outs).2 := h
    rcases hc : w.vsDNSConnects[i]? with _ | c <;> rw [hc] at h
    · cases h
    · obtain ⟨fd, hf, ⟨d, hd, rfl⟩ | hx⟩ := DNSConnect.mem_calls_write h
      · exact ⟨i, c, fd, hc, hf, Or.inl ⟨d, rfl, Or.inl hd⟩⟩
      · exact ⟨i, c, fd, hc, hf, Or.inr (Or.inl hx)⟩

theorem mem_calls_read {zones : Zones} {i : ℕ} {d : Bytes} {w : DNSQureyWork} {x : Call} :
    x ∈ (step zones (.read i d) w).2 ↔ ∃ wi, d ≠ [] ∧ pending w (replyID d) = some wi ∧
      (scanAfter zones wi i d).1 ≠ .waiting ∧
      ((∃ out, (scanAfter zones wi i d).1.result zones wi.uQType (itemsAfter zones wi i d) = some out ∧
          x = .sendTo w.raReply out) ∨
        ((w.finish (replyID d)).1.isIdle = true ∧ x = .workClose w.sKey)) := by
  constructor
  · intro h
    rcases step_read zones i d w with ⟨-, he⟩ | ⟨wi, hd, hp, ⟨-, he⟩ | ⟨hs, he⟩⟩ <;> rw [he] at h
    · cases h
    · cases h
    · refine ⟨wi, hd, hp, hs, ?_⟩
      rcases List.mem_append.mp h with h | h
      · obtain ⟨out, ho, rfl⟩ := List.mem_map.mp h
        exact Or.inl ⟨out, Option.mem_toList.mp ho, rfl⟩
      · have h : x ∈ if (w.finish (replyID d)).1.isIdle then [Call.workClose w.sKey] else [] := h
        split_ifs at h with hi
        · exact Or.inr ⟨hi, List.mem_singleton.mp h⟩
        · cases h
  · rintro ⟨wi, hd, hp, hs, h⟩
    rcases step_read zones i d w with ⟨hn, -⟩ | ⟨wi', -, hp', ⟨hs', -⟩ | ⟨-, he⟩⟩
    · rcases hn with hn | hn
      · exact absurd hn hd
      · rw [hp] at hn
        cases hn
    · rw [hp] at hp'
      cases hp'
      exact absurd hs' hs
    · rw [hp] at hp'
      cases hp'
      rw [he]
      rcases h with ⟨out, ho, rfl⟩ | ⟨hi, rfl⟩
      · exact List.mem_append_left _ (List.mem_map.mpr ⟨out, Option.mem_toList.mpr ho, rfl⟩)
      · refine List.mem_append_right _ ?_
        show _ ∈ if (w.finish (replyID d)).1.isIdle then [Call.workClose w.sKey] else []
        rw [if_pos hi]
        exact List.mem_singleton_self _

/-- **A datagram goes to the client** exactly when a reply decides a pending query with its outcome. -/
theorem mem_sendTo_step {zones : Zones} {e : Event} {w : DNSQureyWork} {ra : ReplyAddr} {out : Bytes} :
    Call.sendTo ra out ∈ (step zones e w).2 ↔
      ∃ i d wi, e = .read i d ∧ d ≠ [] ∧ pending w (replyID d) = some wi ∧ ra = w.raReply ∧
        (scanAfter zones wi i d).1.result zones wi.uQType (itemsAfter zones wi i d) = some out := by
  constructor
  · intro h
    by_cases he : ∃ i d, e = .read i d
    · obtain ⟨i, d, rfl⟩ := he
      obtain ⟨wi, hd, hp, -, ⟨o, ho, hx⟩ | ⟨-, hx⟩⟩ := mem_calls_read.mp h <;> cases hx
      exact ⟨i, d, wi, rfl, hd, hp, rfl, ho⟩
    · obtain ⟨i, c, fd, -, -, ⟨d, hx, -⟩ | ⟨b, hx⟩ | ⟨hx, -⟩⟩ :=
        mem_calls_step h fun i d hr => he ⟨i, d, hr⟩
      all_goals cases hx
  · rintro ⟨i, d, wi, rfl, hd, hp, rfl, hr⟩
    refine mem_calls_read.mpr ⟨wi, hd, hp, fun hs => ?_, Or.inl ⟨out, hr, rfl⟩⟩
    rw [hs] at hr
    cases hr

/-- **What is sent upstream** was queued on that socket, or is the client's datagram. -/
theorem mem_send_step {zones : Zones} {e : Event} {w : DNSQureyWork} {fd : Fd} {x : Bytes}
    (h : Call.send fd x ∈ (step zones e w).2) :
    ∃ (i : ℕ) (c : DNSConnect), w.vsDNSConnects[i]? = some c ∧ c.fdSock = some fd ∧
      (x ∈ c.lsWriteQueue ∨ ∃ l now outs, e = .recv l x now outs) := by
  by_cases he : ∃ i d, e = .read i d
  · obtain ⟨i, d, rfl⟩ := he
    obtain ⟨wi, -, -, -, ⟨o, -, hx⟩ | ⟨-, hx⟩⟩ := mem_calls_read.mp h <;> cases hx
  · obtain ⟨i, c, fd, hc, hf, ⟨d, hx, hd⟩ | ⟨b, hx⟩ | ⟨hx, -⟩⟩ :=
      mem_calls_step h fun i d hr => he ⟨i, d, hr⟩
    all_goals cases hx
    exact ⟨i, c, hc, hf, hd⟩

theorem client_step (zones : Zones) (e : Event) (w : DNSQureyWork) :
    ((step zones e w).1.raReply = match e with
      | .recv l _ _ _ => w.raReply.setLocalAddr l
      | _ => w.raReply) ∧
    ((step zones e w).1.llLastTouch = match e with
      | .recv _ _ now _ => now
      | _ => w.llLastTouch) ∧
    (step zones e w).1.sKey = w.sKey := by
  rcases e with ⟨l, d, now, outs⟩ | ⟨i, d⟩ | i | ⟨i, outs⟩
  · unfold step DNSQureyWork.serverNewWork
    dsimp only
    split_ifs
    · exact ⟨rfl, rfl, rfl⟩
    · split <;> exact ⟨rfl, rfl, rfl⟩
  · rcases step_read zones i d w with ⟨-, he⟩ | ⟨wi, -, -, ⟨-, he⟩ | ⟨-, he⟩⟩
    all_goals
      rw [he]
      exact ⟨rfl, rfl, rfl⟩
  · exact ⟨rfl, rfl, rfl⟩
  · exact ⟨rfl, rfl, rfl⟩

theorem raReply_step (zones : Zones) (e : Event) (w : DNSQureyWork) :
    (step zones e w).1.raReply = match e with
      | .recv l _ _ _ => w.raReply.setLocalAddr l
      | _ => w.raReply :=
  (client_step zones e w).1

theorem ssClient_step (zones : Zones) (e : Event) (w : DNSQureyWork) :
    (step zones e w).1.raReply.ssClient = w.raReply.ssClient := by
  rw [raReply_step]
  rcases e with l | _ | _ | _
  · rcases l with _ | l <;> rfl
  all_goals rfl

theorem llLastTouch_step (zones : Zones) (e : Event) (w : DNSQureyWork) :
    (step zones e w).1.llLastTouch = match e with
      | .recv _ _ now _ => now
      | _ => w.llLastTouch :=
  (client_step zones e w).2.1

theorem sKey_step (zones : Zones) (e : Event) (w : DNSQureyWork) :
    (step zones e w).1.sKey = w.sKey :=
  (client_step zones e w).2.2

/-! ### Connections -/

/-- Connections as an event leaves them: on the same sockets, with nothing queued that was not queued
before or is the client's datagram. -/
structure ConnKept (e : Event) (c c' : DNSConnect) : Prop where
  fdSock : c'.fdSock = c.fdSock
  nIndex : c'.nIndex = c.nIndex
  queue : ∀ x ∈ c'.lsWriteQueue, x ∈ c.lsWriteQueue ∨ ∃ l now outs, e = .recv l x now outs

theorem ConnKept.rfl' (e : Event) (c : DNSConnect) : ConnKept e c c := ⟨rfl, rfl, fun _ h => Or.inl h⟩

theorem AskedBy.kept {l : Option PktInfo} {d : Bytes} {now : ℕ} {outs : ℕ → SendOutcome}
    {c : DNSConnect} {a : Asked} (h : AskedBy d c a) : ConnKept (.recv l d now outs) c a.conn := by
  cases h with
  | left s => exact ConnKept.rfl' _ _
  | sent o =>
    refine ⟨DNSConnect.fdSock_sendDNSQueryBuffer o d c, DNSConnect.nIndex_sendDNSQueryBuffer o d c, ?_⟩
    intro x hx
    rcases DNSConnect.mem_queue_sendDNSQueryBuffer hx with hx | rfl
    · exact Or.inl hx
    · exact Or.inr ⟨l, now, outs, rfl⟩

/-- **The connections of a work** keep their places and sockets. -/
theorem conns_step (zones : Zones) (e : Event) (w : DNSQureyWork) :
    (step zones e w).1.vsDNSConnects.length = w.vsDNSConnects.length ∧
      ∀ (i : ℕ) (c' : DNSConnect), (step zones e w).1.vsDNSConnects[i]? = some c' →
        ∃ c, w.vsDNSConnects[i]? = some c ∧ ConnKept e c c' := by
  have hsame : ∀ w' : DNSQureyWork, w'.vsDNSConnects = w.vsDNSConnects →
      w'.vsDNSConnects.length = w.vsDNSConnects.length ∧
        ∀ (i : ℕ) (c' : DNSConnect), w'.vsDNSConnects[i]? = some c' →
          ∃ c, w.vsDNSConnects[i]? = some c ∧ ConnKept e c c' := by
    intro w' h
    rw [h]
    exact ⟨rfl, fun i c' hc => ⟨c', hc, ConnKept.rfl' _ _⟩⟩
  cases e with
  | recv l d now outs =>
    rcases step_recv zones l d now outs w with ⟨hc, -⟩ | ⟨asked, hlen, hget, hc, -⟩
    · exact hsame _ hc
    · rw [hc]
      refine ⟨by simp [hlen], fun i c' hi => ?_⟩
      rw [List.getElem?_map] at hi
      obtain ⟨a, ha, rfl⟩ := Option.map_eq_some_iff.mp hi
      obtain ⟨c, hc', hac⟩ := hget i a ha
      exact ⟨c, hc', hac.kept⟩
  | read i d =>
    refine hsame _ ?_
    rcases step_read zones i d w with ⟨-, he⟩ | ⟨wi, -, -, ⟨-, he⟩ | ⟨-, he⟩⟩
    all_goals rw [he]
    rfl
  | disconnect i => exact hsame _ rfl
  | write i outs =>
    refine ⟨List.length_modify _ _ _, fun j c' hj => ?_⟩
    unfold step DNSQureyWork.withConn at hj
    dsimp only at hj
    rw [List.getElem?_modify] at hj
    obtain ⟨c, hc, he⟩ := Option.map_eq_some_iff.mp hj
    refine ⟨c, hc, ?_⟩
    by_cases hij : i = j
    · rw [if_pos hij] at he
      subst he
      exact ⟨rfl, rfl, fun x hx => Or.inl (DNSConnect.mem_writeLoop (Or.inr hx))⟩
    · rw [if_neg hij] at he
      subst he
      exact ConnKept.rfl' _ _

/-! ### The states of the zones -/

theorem stateAt_created (n q : ℕ) (asked : List Asked) (i : ℕ) :
    stateAt (DNSQureyWorkItem.created n q asked).vsDNSQueryResultItems i =
      (asked[i]?).map (·.eState) := by
  unfold stateAt DNSQureyWorkItem.created
  rw [List.getElem?_map, Option.map_map]
  rfl

theorem stateAt_resent (wi : DNSQureyWorkItem) (asked : List Asked) (i : ℕ) :
    stateAt (wi.resent asked).vsDNSQueryResultItems i =
      (stateAt wi.vsDNSQueryResultItems i).map fun s => ((asked[i]?).map (·.eState)).getD s := by
  unfold stateAt DNSQureyWorkItem.resent
  rw [List.getElem?_mapIdx, Option.map_map, Option.map_map]
  rfl

theorem stateAt_disconnect (wi : DNSQureyWorkItem) (i j : ℕ) :
    stateAt (wi.disconnect i).vsDNSQueryResultItems j =
      if i = j ∧ stateAt wi.vsDNSQueryResultItems j = some .wait then some .error
      else stateAt wi.vsDNSQueryResultItems j := by
  unfold stateAt DNSQureyWorkItem.disconnect
  rw [List.getElem?_modify]
  rcases wi.vsDNSQueryResultItems[j]? with _ | item
  · simp
  · by_cases hij : i = j
    · by_cases hw : item.eState = .wait <;> simp [hij, hw, DNSQueryResultItem.disconnect]
    · simp [hij]

theorem stateAt_itemsAfter_ne (zones : Zones) (wi : DNSQureyWorkItem) {i j : ℕ} (d : Bytes)
    (h : i ≠ j) : stateAt (itemsAfter zones wi i d) j = stateAt wi.vsDNSQueryResultItems j := by
  unfold stateAt itemsAfter replied
  rw [List.getElem?_modify]
  rcases wi.vsDNSQueryResultItems[j]? with _ | item <;> simp [h]

theorem stateAt_itemsAfter_self (zones : Zones) (wi : DNSQureyWorkItem) (i : ℕ) (d : Bytes) :
    stateAt (itemsAfter zones wi i d) i = (wi.vsDNSQueryResultItems[i]?).map fun item =>
      (judge (zoneAt zones i) wi.uQType (Reply.ofDatagram d) item).eState := by
  unfold stateAt itemsAfter replied
  rw [List.getElem?_modify_eq]
  rcases wi.vsDNSQueryResultItems[i]? with _ | item <;> rfl

theorem stateAt_itemsAfter_match {zones : Zones} {wi : DNSQureyWorkItem} {i : ℕ} {d : Bytes}
    (hi : i < wi.vsDNSQueryResultItems.length) : stateAt (itemsAfter zones wi i d) i = some .match ↔
      ReplyMatches (zoneAt zones i) wi.uQType (Reply.ofDatagram d) := by
  rw [stateAt_itemsAfter_self, List.getElem?_eq_getElem hi, Option.map_some, Option.some.injEq]
  exact judge_eq_match

theorem wait_of_stateAt_itemsAfter {zones : Zones} {wi : DNSQureyWorkItem} {i j : ℕ} {d : Bytes}
    (h : stateAt (itemsAfter zones wi i d) j = some .wait) :
    i ≠ j ∧ stateAt wi.vsDNSQueryResultItems j = some .wait := by
  by_cases hij : i = j
  · subst hij
    rw [stateAt_itemsAfter_self] at h
    obtain ⟨item, -, hw⟩ := Option.map_eq_some_iff.mp h
    exact absurd hw judge_ne_wait
  · exact ⟨hij, (stateAt_itemsAfter_ne zones wi d hij) ▸ h⟩

/-- A zone is waited for once it is asked exactly when it takes part, or is the first, and the send is
accepted. -/
theorem askZone_wait {zones : Zones} {q : ℕ} {d : Bytes} {outs : ℕ → SendOutcome} {i : ℕ}
    {c : DNSConnect} : (askZone zones q d outs i c).eState = .wait ↔
      (i = 0 ∨ zoneTakesPart (zoneAt zones i) q = true) ∧ c.Accepts (outs i) := by
  rw [← DNSConnect.sendDNSQueryBuffer_eq_true (d := d)]
  unfold askZone sendOrError
  by_cases hi : i ≠ 0 ∧ ¬ zoneTakesPart (zoneAt zones i) q = true
  · rw [if_pos hi]
    exact iff_of_false (by simp) fun h => h.1.elim hi.1 hi.2
  · rw [if_neg hi]
    have hor : i = 0 ∨ zoneTakesPart (zoneAt zones i) q = true := by
      by_contra hn
      exact hi (not_or.mp hn)
    rcases h : (c.sendDNSQueryBuffer (outs i) d).1 <;> simp [hor, h]

theorem askZone_ne_match {zones : Zones} {q : ℕ} {d : Bytes} {outs : ℕ → SendOutcome} {i : ℕ}
    {c : DNSConnect} : (askZone zones q d outs i c).eState ≠ .match := by
  unfold askZone sendOrError
  dsimp only
  split_ifs <;> simp

/-- The connection of zone `i` accepts the send of an event. -/
def AcceptsAt (w : DNSQureyWork) (outs : ℕ → SendOutcome) (i : ℕ) : Prop :=
  ∃ c, w.vsDNSConnects[i]? = some c ∧ c.Accepts (outs i)

/-- **Zone `i` is asked** when a query is created: it takes part, or is the first, and the send is
accepted. -/
def IsAsked (zones : Zones) (w : DNSQureyWork) (d : Bytes) (outs : ℕ → SendOutcome) (i : ℕ) : Prop :=
  (i = 0 ∨ zoneTakesPart (zoneAt zones i) (queryType d) = true) ∧ AcceptsAt w outs i

instance (w : DNSQureyWork) (outs : ℕ → SendOutcome) (i : ℕ) : Decidable (AcceptsAt w outs i) :=
  match h : w.vsDNSConnects[i]? with
  | none => isFalse fun ⟨c, hc, _⟩ => by rw [h] at hc; cases hc
  | some c => decidable_of_iff (c.Accepts (outs i)) (by simp [AcceptsAt, h])

instance (zones : Zones) (w : DNSQureyWork) (d : Bytes) (outs : ℕ → SendOutcome) (i : ℕ) :
    Decidable (IsAsked zones w d outs i) := by
  unfold IsAsked; infer_instance

theorem AcceptsAt.lt {w : DNSQureyWork} {outs : ℕ → SendOutcome} {i : ℕ} (h : AcceptsAt w outs i) :
    i < w.vsDNSConnects.length := by
  obtain ⟨c, hc, -⟩ := h
  exact (List.getElem?_eq_some_iff.mp hc).1

theorem IsAsked.lt {zones : Zones} {w : DNSQureyWork} {d : Bytes} {outs : ℕ → SendOutcome} {i : ℕ}
    (h : IsAsked zones w d outs i) : i < w.vsDNSConnects.length := h.2.lt

theorem stateAt_askedFirst {zones : Zones} {w : DNSQureyWork} {n q : ℕ} {d : Bytes}
    {outs : ℕ → SendOutcome} {i : ℕ} {s : EnumState} :
    stateAt (DNSQureyWorkItem.created n q (askedFirst zones w d outs)).vsDNSQueryResultItems i =
        some s ↔
      ∃ c, w.vsDNSConnects[i]? = some c ∧ (askZone zones (queryType d) d outs i c).eState = s := by
  rw [stateAt_created]
  unfold askedFirst
  rw [List.getElem?_mapIdx]
  rcases w.vsDNSConnects[i]? with _ | c <;> simp

/-- In a new query exactly the asked zones are waited for, and none matches. -/
theorem stateAt_askedFirst_wait {zones : Zones} {w : DNSQureyWork} {n : ℕ} {d : Bytes}
    {outs : ℕ → SendOutcome} {i : ℕ} :
    stateAt (DNSQureyWorkItem.created n (queryType d) (askedFirst zones w d outs)).vsDNSQueryResultItems
        i = some .wait ↔ IsAsked zones w d outs i := by
  rw [stateAt_askedFirst]
  constructor
  · rintro ⟨c, hc, hw⟩
    exact ⟨(askZone_wait.mp hw).1, c, hc, (askZone_wait.mp hw).2⟩
  · rintro ⟨ht, c, hc, ha⟩
    exact ⟨c, hc, askZone_wait.mpr ⟨ht, ha⟩⟩

theorem stateAt_askedFirst_ne_match {zones : Zones} {w : DNSQureyWork} {n q : ℕ} {d : Bytes}
    {outs : ℕ → SendOutcome} {i : ℕ} :
    stateAt (DNSQureyWorkItem.created n q (askedFirst zones w d outs)).vsDNSQueryResultItems i ≠
      some .match := by
  intro h
  obtain ⟨c, -, hm⟩ := stateAt_askedFirst.mp h
  exact askZone_ne_match hm

theorem askAgain_state {d : Bytes} {o : SendOutcome} {item : DNSQueryResultItem} {c : DNSConnect} :
    (askAgain d o item c).eState =
      if item.eState = .wait then (if c.Accepts o then .wait else .error) else item.eState := by
  unfold askAgain sendOrError
  by_cases hw : item.eState = .wait
  · rw [if_pos hw, if_pos hw]
    by_cases ha : c.Accepts o
    · rw [if_pos ha]
      exact if_pos (DNSConnect.sendDNSQueryBuffer_eq_true.mpr ha)
    · rw [if_neg ha]
      exact if_neg fun h => ha (DNSConnect.sendDNSQueryBuffer_eq_true.mp h)
  · rw [if_neg hw, if_neg hw]

theorem stateAt_askedAgain {w : DNSQureyWork} {wi : DNSQureyWorkItem} {d : Bytes}
    {outs : ℕ → SendOutcome} {i : ℕ} {c : DNSConnect} (hc : w.vsDNSConnects[i]? = some c) :
    stateAt (wi.resent (askedAgain w wi d outs)).vsDNSQueryResultItems i =
      (stateAt wi.vsDNSQueryResultItems i).map fun s =>
        if s = .wait then (if c.Accepts (outs i) then .wait else .error) else s := by
  rw [stateAt_resent]
  rw [getElem?_askedAgain, hc]
  unfold stateAt
  rcases hi : wi.vsDNSQueryResultItems[i]? with _ | item
  · rfl
  · simp only [Option.map_some, Option.getD_some, Option.some.injEq]
    exact askAgain_state

/-- **Where a zone that is waited for comes from**: it was waited for, and its upstream has not failed, or
the query is new and the zone is asked. -/
theorem waiting_step {zones : Zones} {e : Event} {w : DNSQureyWork} {n i : ℕ} {wi' : DNSQureyWorkItem}
    (hp : pending (step zones e w).1 n = some wi')
    (hw : stateAt wi'.vsDNSQueryResultItems i = some .wait) :
    (e ≠ .disconnect i ∧
      ∃ wi, pending w n = some wi ∧ stateAt wi.vsDNSQueryResultItems i = some .wait) ∨
    ∃ l d now outs, e = .recv l d now outs ∧ 2 ≤ d.length ∧ queryID d = n ∧ pending w n = none ∧
      IsAsked zones w d outs i := by
  by_cases he : ∃ j, e = .disconnect j
  · obtain ⟨j, rfl⟩ := he
    rw [pending_step] at hp
    obtain ⟨wi, hwi, rfl⟩ := Option.map_eq_some_iff.mp hp
    rw [stateAt_disconnect] at hw
    split_ifs at hw with hc
    · cases hw
    · refine Or.inl ⟨fun hj => hc ⟨?_, hw⟩, wi, hwi, hw⟩
      cases hj
      rfl
  have hne : e ≠ .disconnect i := fun h => he ⟨i, h⟩
  cases stepped hp with
  | kept hwi => exact Or.inl ⟨hne, wi', hwi, hw⟩
  | resent l d now outs wi hwi _ _ =>
    refine Or.inl ⟨hne, wi, hwi, ?_⟩
    rcases hc : w.vsDNSConnects[i]? with _ | c
    · have hnone : (askedAgain w wi d outs)[i]? = none := by
        rw [askedAgain, resend, List.getElem?_mapIdx, hc]
        rfl
      rw [stateAt_resent, hnone] at hw
      simpa using hw
    · rw [stateAt_askedAgain hc] at hw
      obtain ⟨x, hx, hwait⟩ := Option.map_eq_some_iff.mp hw
      split_ifs at hwait with hxw ha
      · rw [hx, hxw]
      · exact absurd hwait hxw
  | created l d now outs hn hl hq =>
    subst hq
    exact Or.inr ⟨l, d, now, outs, rfl, hl, rfl, hn, stateAt_askedFirst_wait.mp hw⟩
  | replied j d wi hwi _ _ _ => exact Or.inl ⟨hne, wi, hwi, (wait_of_stateAt_itemsAfter hw).2⟩
  | disconnected j wi _ => exact absurd ⟨j, rfl⟩ he

/-- What is said of every pending query can be checked ID by ID. -/
theorem forall_keys_iff {w : DNSQureyWork} {P : ℕ → DNSQureyWorkItem → Prop} :
    (∀ n ∈ w.mwDNSQureyWorkItems.keys, ∀ wi ∈ pending w n, P n wi) ↔
      ∀ n wi, pending w n = some wi → P n wi := by
  refine ⟨fun h n wi hp => h n ?_ wi hp, fun h n _ => h n⟩
  refine AList.mem_keys.mp (AList.lookup_isSome.mp ?_)
  rw [show w.mwDNSQureyWorkItems.lookup n = some wi from hp]
  rfl

/-! ### Messages and works for examples -/

/-- A message with one question, for a name of one label, and the given bytes after it. -/
def message (nID uFlag nAnswers : ℕ) (label : Bytes) (uQType : ℕ) (answers : Bytes) : Bytes :=
  be16 nID ++ be16 uFlag ++ be16 1 ++ be16 nAnswers ++ be16 0 ++ be16 0 ++
    (UInt8.ofNat label.length :: label) ++ [0] ++ be16 uQType ++ be16 1 ++ answers

/-- A query. -/
def query (nID : ℕ) (label : Bytes) (uQType : ℕ) : Bytes := message nID 0x0100 0 label uQType []

/-- A response with one address record for the name asked for. -/
def addressReply (nID : ℕ) (label : Bytes) (uQType : ℕ) (address : Bytes) : Bytes :=
  message nID 0x8180 1 label uQType
    ([0xC0, 0x0C] ++ be16 uQType ++ be16 1 ++ be32 60 ++ be16 address.length ++ address)

/-- A response without records. -/
def emptyReply (nID : ℕ) (label : Bytes) (uQType : ℕ) : Bytes := message nID 0x8180 0 label uQType []

/-- A work with `n` connected zones and nothing pending. -/
def freshWork (n : ℕ) : DNSQureyWork where
  raReply := { ssClient := .inet 0x0A000002 5353 }
  vsDNSConnects := (List.range n).map fun i => { nIndex := i, fdSock := some (10 + i) }
  sKey := []

theorem pending_freshWork (k n : ℕ) : pending (freshWork k) n = none := rfl

end DnsMultiZone.Work.Steps
