import DnsMultiZone.MainLoop.Isolated

/-! # How much the server sends

A query of a client is one pending query, and one datagram to each zone; an answer ends a pending query. So
a server that is sent any datagrams by clients and upstreams sends its clients no more answers than they
have sent it queries, and its upstreams no more than that for each zone.

* `answers_paid`, `queries_paid`: one event of a work. What a work owes are its pending queries, or what it
  has queued for its upstreams.
* `traffic_bounded`: every run of the server. -/

namespace DnsMultiZone.MainLoop.Traffic

open DnsMultiZone.Lib.BigEndian DnsMultiZone.Lib.Assoc DnsMultiZone.Lib.Runs DnsMultiZone.Lib.Family
open DnsMultiZone.Config.ConfigType DnsMultiZone.Work.Connect DnsMultiZone.Work.Steps
open DnsMultiZone.Work.Query hiding Event step
open DnsMultiZone.MainLoop.Descriptors DnsMultiZone.MainLoop.Dispatch DnsMultiZone.MainLoop.Ownership
open DnsMultiZone.MainLoop.Works DnsMultiZone.MainLoop.Isolated
open DnsMultiZone.MainLoop.SendQueue (writeLoop_fst writeLoop_snd flushEnds)
open DnsMultiZone.Lib.Fifo (kept)

/-! ### What is counted -/

/-- The queries in a datagram of a client: one, if it has an ID. -/
def queryCount (d : Bytes) : ℕ := if 2 ≤ d.length then 1 else 0

/-- Those of an event of a work. -/
def paid : Work.Query.Event → ℕ
  | .recv _ d _ _ => queryCount d
  | _ => 0

/-- The queries the server has been sent. -/
def queriesReceived : List (Entry Sys Event (List Effect)) → ℕ
  | [] => 0
  | x :: tr =>
    (match x.event with
      | .listenRead r _ _ _ => queryCount r.sBuffer
      | _ => 0) + queriesReceived tr

/-- The answers in a call. -/
def answerCount (c : Call) : ℕ := (answerOf c).toList.length

/-- The datagrams to upstreams in a call. -/
def sendCount (c : Call) : ℕ := (queryOf c).toList.length

/-- The pending queries of a work. -/
def pendingCount (w : DNSQureyWork) : ℕ := w.mwDNSQureyWorkItems.keys.length

/-- What connections have queued. -/
def queuedCount (cs : List DNSConnect) : ℕ := (cs.map fun c => c.lsWriteQueue.length).sum

theorem length_filterMap_eq_sum {α β : Type} (f : α → Option β) (l : List α) :
    (l.filterMap f).length = (l.map fun x => (f x).toList.length).sum := by
  induction l with
  | nil => rfl
  | cons x l ih =>
    rw [List.map_cons, List.sum_cons, ← ih]
    rcases hx : f x with _ | y
    · rw [List.filterMap_cons_none hx]
      exact (Nat.zero_add _).symm
    · rw [List.filterMap_cons_some hx]
      exact Nat.add_comm _ _

theorem sum_eq_zero {count : Call → ℕ} {cs : List Call} (h : ∀ c ∈ cs, count c = 0) :
    (cs.map count).sum = 0 := by
  refine List.sum_eq_zero fun n hn => ?_
  obtain ⟨c, hc, rfl⟩ := List.mem_map.mp hn
  exact h c hc

/-! ### Answers -/

section Answers
variable (zones : Zones) (w : DNSQureyWork)

theorem pendingCount_insert {m : Map ℕ DNSQureyWorkItem} {n : ℕ} (wi : DNSQureyWorkItem) :
    (m.insert n wi).keys.length ≤ m.keys.length + 1 ∧ (n ∈ m → (m.insert n wi).keys.length = m.keys.length) := by
  rw [AList.keys_insert, List.length_cons]
  refine ⟨Nat.succ_le_succ (List.length_erase_le), fun hn => ?_⟩
  have hmem : n ∈ m.keys := AList.mem_keys.mpr hn
  have hpos := List.length_pos_of_mem hmem
  rw [List.length_erase_of_mem hmem]
  omega

/-- Only a reply of an upstream brings answers. -/
theorem no_answers {e : Work.Query.Event} (he : ∀ i d, e ≠ .read i d) :
    ((Work.Query.step zones e w).2.map answerCount).sum = 0 := by
  refine sum_eq_zero fun c hc => ?_
  obtain ⟨i, c', fd, -, -, ⟨d, rfl, -⟩ | ⟨b, rfl⟩ | ⟨rfl, -⟩⟩ := mem_calls_step hc he
  · rfl
  · rfl
  · rfl

/-- **An answer is paid for with a pending query, and a pending query with a query.** -/
theorem answers_paid (e : Work.Query.Event) :
    ((Work.Query.step zones e w).2.map answerCount).sum + pendingCount (Work.Query.step zones e w).1 ≤
      pendingCount w + paid e := by
  cases e with
  | recv l d now outs =>
    rw [no_answers zones w (fun i d' h => by cases h), Nat.zero_add]
    unfold paid queryCount
    unfold Work.Query.step DNSQureyWork.serverNewWork
    dsimp only
    split_ifs with hl hd
    · omega
    · exact Nat.le_add_right _ _
    · rcases hp : w.mwDNSQureyWorkItems.lookup (queryID d) with _ | wi
      · exact (pendingCount_insert _).1
      · exact ((pendingCount_insert _).2 (mem_of_lookup hp)).le.trans (Nat.le_add_right _ _)
    · omega
  | read i d =>
    rcases step_read zones i d w with ⟨-, he⟩ | ⟨wi, hd, hp, ⟨-, he⟩ | ⟨hs, he⟩⟩ <;> rw [he]
    · exact (Nat.zero_add _).le
    · show 0 + (w.mwDNSQureyWorkItems.insert _ _).keys.length ≤ _
      rw [(pendingCount_insert _).2 (mem_of_lookup hp), Nat.zero_add]
      exact Nat.le_add_right _ _
    · have hmem : replyID d ∈ w.mwDNSQureyWorkItems.keys := AList.mem_keys.mpr (mem_of_lookup hp)
      have hpos := List.length_pos_of_mem hmem
      have hpending : pendingCount (w.finish (replyID d)).1 = pendingCount w - 1 := by
        show (w.mwDNSQureyWorkItems.erase _).keys.length = _
        rw [AList.keys_erase, List.length_erase_of_mem hmem]
        rfl
      have hclose : ((w.finish (replyID d)).2.map answerCount).sum = 0 := by
        refine sum_eq_zero fun c hc => ?_
        unfold DNSQureyWork.finish at hc
        dsimp only at hc
        split_ifs at hc
        · obtain rfl := List.mem_singleton.mp hc
          rfl
        · cases hc
      have hone : ∀ o : Option Bytes,
          ((o.toList.map (Call.sendTo w.raReply)).map answerCount).sum ≤ 1 := by
        intro o
        cases o with
        | none => exact Nat.zero_le _
        | some out => exact le_rfl
      dsimp only
      rw [List.map_append, List.sum_append, hclose, hpending]
      have hle := hone ((scanAfter zones wi i d).1.result zones wi.uQType (itemsAfter zones wi i d))
      have hposw : 0 < pendingCount w := hpos
      have hpaid : paid (.read i d) = 0 := rfl
      omega
  | disconnect i =>
    rw [no_answers zones w (fun i d h => by cases h), Nat.zero_add]
    have hkeys : pendingCount (w.dnsQueryDisconnect i) = pendingCount w := by
      unfold pendingCount DNSQureyWork.dnsQueryDisconnect AList.keys mapVal List.keys
      simp
    exact hkeys.le
  | write i outs =>
    rw [no_answers zones w (fun i d h => by cases h), Nat.zero_add]
    exact le_rfl

end Answers

/-! ### Datagrams to upstreams -/

theorem length_writeLoop {α : Type} (outs : ℕ → SendOutcome) (k : ℕ) (q : List α) :
    (DNSConnect.writeLoop outs k q).1.length + (DNSConnect.writeLoop outs k q).2.length ≤ q.length := by
  have hkept : ∀ marks : List (α × Bool), (kept marks).length ≤ (marks.map Prod.fst).length := by
    intro marks
    unfold kept
    rw [List.length_map, List.length_map]
    exact List.length_filter_le _ _
  have hlen := congrArg List.length (writeLoop_snd outs k q)
  have hfst := hkept (flushEnds outs k q)
  rw [← writeLoop_fst] at hfst
  rw [List.length_append] at hlen
  omega

/-- A connection that is asked sends or queues the datagram, or drops it. -/
theorem asked_paid {d : Bytes} {c : DNSConnect} {a : Asked} (h : AskedBy d c a) :
    (a.calls.map sendCount).sum + a.conn.lsWriteQueue.length ≤ c.lsWriteQueue.length + 1 := by
  cases h with
  | left s => exact (Nat.zero_add _).le.trans (Nat.le_succ _)
  | sent o =>
    unfold sendOrError DNSConnect.sendDNSQueryBuffer
    dsimp only
    rcases hf : c.fdSock with _ | fd
    · exact (Nat.zero_add _).le.trans (Nat.le_succ _)
    · dsimp only
      split_ifs
      · exact (Nat.add_comm _ _).le
      · exact (Nat.zero_add _).le.trans (Nat.le_succ _)
      · have hmod : ∀ c : DNSConnect, (c.updateEvents.map sendCount).sum = 0 := by
          intro c
          unfold DNSConnect.updateEvents
          rcases c.fdSock with _ | fd
          · rfl
          · rfl
        dsimp only
        rw [hmod, Nat.zero_add, List.length_append]
        rfl

theorem allAsked_paid {d : Bytes} {asked : List Asked} {cs : List DNSConnect}
    (hlen : asked.length = cs.length)
    (hget : ∀ (i : ℕ) (a : Asked), asked[i]? = some a → ∃ c, cs[i]? = some c ∧ AskedBy d c a) :
    ((asked.flatMap (·.calls)).map sendCount).sum + queuedCount (asked.map (·.conn)) ≤
      queuedCount cs + cs.length := by
  induction asked generalizing cs with
  | nil => exact Nat.zero_le _
  | cons a asked ih =>
    rcases cs with _ | ⟨c, cs⟩
    · cases hlen
    · obtain ⟨c', hc', ha⟩ := hget 0 a rfl
      obtain rfl : c = c' := Option.some.inj hc'
      have hone := asked_paid ha
      have hrest := ih (Nat.succ.inj hlen) fun i a' ha' => hget (i + 1) a' ha'
      unfold queuedCount at hrest ⊢
      rw [List.flatMap_cons, List.map_append, List.sum_append, List.map_cons, List.map_cons,
        List.map_cons, List.sum_cons, List.sum_cons, List.length_cons]
      omega

/-- What a connection sends of its queue is no longer queued. -/
theorem write_paid (outs : ℕ → SendOutcome) (c : DNSConnect) :
    ((c.write outs).2.map sendCount).sum + (c.write outs).1.lsWriteQueue.length ≤
      c.lsWriteQueue.length := by
  have hloop := length_writeLoop outs 0 c.lsWriteQueue
  have hsends : ∀ fd (ds : List Bytes), ((ds.map (Call.send fd)).map sendCount).sum = ds.length := by
    intro fd ds
    induction ds with
    | nil => rfl
    | cons d ds ih =>
      rw [List.map_cons, List.map_cons, List.sum_cons, ih]
      exact Nat.add_comm _ _
  unfold DNSConnect.write DNSConnect.updateEvents
  dsimp only
  rcases hf : c.fdSock with _ | fd
  · have hqueue : (DNSConnect.writeLoop outs 0 c.lsWriteQueue).2.length ≤ c.lsWriteQueue.length := by
      omega
    exact (Nat.zero_add _).le.trans hqueue
  · have hmod : ∀ b, ([Call.mod fd b].map sendCount).sum = 0 := fun b => rfl
    dsimp only [Option.elim_some]
    rw [List.map_append, List.sum_append, hsends, hmod, Nat.add_zero]
    exact hloop

theorem modify_paid {f : DNSConnect → DNSConnect × List Call}
    (hf : ∀ c, ((f c).2.map sendCount).sum + (f c).1.lsWriteQueue.length ≤ c.lsWriteQueue.length)
    (cs : List DNSConnect) (i : ℕ) :
    (((cs[i]?).elim [] fun c => (f c).2).map sendCount).sum + queuedCount (cs.modify i fun c => (f c).1) ≤
      queuedCount cs := by
  induction cs generalizing i with
  | nil => simp [queuedCount]
  | cons c cs ih =>
    rcases i with _ | i
    · have hone := hf c
      show ((f c).2.map sendCount).sum + ((f c).1.lsWriteQueue.length + queuedCount cs) ≤
        c.lsWriteQueue.length + queuedCount cs
      omega
    · have hrest := ih i
      show (((cs[i]?).elim [] fun c => (f c).2).map sendCount).sum +
        (c.lsWriteQueue.length + queuedCount (cs.modify i fun c => (f c).1)) ≤
          c.lsWriteQueue.length + queuedCount cs
      omega

/-- **A datagram to an upstream is paid for with what was queued, or with a query.** -/
theorem queries_paid (zones : Zones) (e : Work.Query.Event) (w : DNSQureyWork) :
    ((Work.Query.step zones e w).2.map sendCount).sum +
        queuedCount (Work.Query.step zones e w).1.vsDNSConnects ≤
      queuedCount w.vsDNSConnects + w.vsDNSConnects.length * paid e := by
  cases e with
  | recv l d now outs =>
    by_cases hl : d.length < 2
    · have hstep : (Work.Query.step zones (.recv l d now outs) w).1.vsDNSConnects = w.vsDNSConnects ∧
          (Work.Query.step zones (.recv l d now outs) w).2 = [] := by
        simp [Work.Query.step, DNSQureyWork.serverNewWork, hl]
      rw [hstep.1, hstep.2]
      exact (Nat.zero_add _).le.trans (Nat.le_add_right _ _)
    · have hpaid : paid (.recv l d now outs) = 1 := if_pos (by omega)
      rw [hpaid, Nat.mul_one]
      rcases step_recv zones l d now outs w with ⟨hc, hcalls⟩ | ⟨asked, hlen, hget, hc, hcalls⟩
      · rw [hc, hcalls]
        exact (Nat.zero_add _).le.trans (Nat.le_add_right _ _)
      · rw [hc, hcalls]
        exact allAsked_paid hlen hget
  | read i d =>
    have hcalls : ((Work.Query.step zones (.read i d) w).2.map sendCount).sum = 0 := by
      refine sum_eq_zero fun c hc => ?_
      obtain ⟨wi, -, -, -, ⟨out, -, rfl⟩ | ⟨-, rfl⟩⟩ := mem_calls_read.mp hc
      · rfl
      · rfl
    have hconns : (Work.Query.step zones (.read i d) w).1.vsDNSConnects = w.vsDNSConnects := by
      rcases step_read zones i d w with ⟨-, he⟩ | ⟨wi, -, -, ⟨-, he⟩ | ⟨-, he⟩⟩ <;> rw [he]
      rfl
    rw [hcalls, hconns, Nat.zero_add]
    exact Nat.le_add_right _ _
  | disconnect i =>
    have hone : ∀ c : DNSConnect, (c.removefd.map sendCount).sum = 0 := by
      intro c
      unfold DNSConnect.removefd
      rcases c.fdSock with _ | fd
      · rfl
      · rfl
    have hcalls : (((w.vsDNSConnects[i]?).elim [] (·.removefd)).map sendCount).sum = 0 := by
      rcases w.vsDNSConnects[i]? with _ | c
      · rfl
      · exact hone c
    show (((w.vsDNSConnects[i]?).elim [] (·.removefd)).map sendCount).sum + queuedCount w.vsDNSConnects ≤ _
    rw [hcalls, Nat.zero_add]
    exact Nat.le_add_right _ _
  | write i outs =>
    exact (modify_paid (write_paid outs) w.vsDNSConnects i).trans (Nat.le_add_right _ _)

/-! ### Runs -/

section Run
variable {g : Setup} {fdListen : Fd} {kernel : Kernel} {tr : List (Entry Sys Event (List Effect))} {s : Sys}

theorem paid_actionsOf (g : Setup) (s : Server) (e : Event) :
    ((deliveries (actionsOf g s e)).map fun x => paid x.2).sum ≤
      match e with
      | .listenRead r _ _ _ => queryCount r.sBuffer
      | _ => 0 := by
  have hdelivered : ∀ fd (e' : ℕ → Work.Query.Event), (∀ i, paid (e' i) = 0) →
      ((deliveries (delivered s fd e')).map fun x => paid x.2).sum ≤ 0 := by
    intro fd e' he'
    unfold delivered
    rcases s.spConnectionManager.lookup fd with _ | c
    · exact le_rfl
    · exact (he' c.nIndex).le
  have hfreed : ∀ s', ((deliveries (freed s s')).map fun x => paid x.2).sum ≤ 0 := by
    intro s'
    unfold freed
    rw [deliveries_dropAll]
    exact le_rfl
  cases e with
  | listenRead r now conn outs =>
    unfold actionsOf
    dsimp only
    split_ifs
    · exact Nat.zero_le _
    · rcases s.spWorkManager.lookup (addrToString g.inet r.addrClient) with _ | p
      · exact le_rfl
      · exact le_rfl
  | listenWrite outs => exact le_rfl
  | upstreamError fd => exact hdelivered fd .disconnect fun i => rfl
  | upstreamRead fd d o => exact hdelivered fd (.read · d) fun i => rfl
  | upstreamWrite fd outs => exact hdelivered fd (.write · outs) fun i => rfl
  | closeIdle => exact hfreed _
  | clearTimeout now => exact hfreed _
  | exitAndClear => exact hfreed _

theorem paid_actions (g : Setup) (tr : List (Entry Sys Event (List Effect))) :
    ((deliveries (actions g tr)).map fun x => paid x.2).sum ≤ queriesReceived tr := by
  induction tr with
  | nil => exact le_rfl
  | cons x tr ih =>
    have hone := paid_actionsOf g x.before.server x.event
    unfold actions queriesReceived
    rw [deliveries_append, List.map_append, List.sum_append]
    omega

theorem sum_mul {α : Type} (n : ℕ) (f : α → ℕ) (l : List α) :
    (l.map fun x => n * f x).sum = n * (l.map f).sum := by
  induction l with
  | nil => rfl
  | cons x l ih => rw [List.map_cons, List.map_cons, List.sum_cons, List.sum_cons, ih, Nat.mul_add]

theorem pendingCount_setUp {zones : Zones} {w : DNSQureyWork} (h : SetUp zones w) : pendingCount w = 0 := by
  have hempty : w.mwDNSQureyWorkItems = ∅ := eq_empty_of_lookup h.fresh.pending
  unfold pendingCount
  rw [hempty]
  rfl

theorem queuedCount_setUp {zones : Zones} {w : DNSQureyWork} (h : SetUp zones w) :
    queuedCount w.vsDNSConnects = 0 := by
  refine List.sum_eq_zero fun n hn => ?_
  obtain ⟨c, hc, rfl⟩ := List.mem_map.mp hn
  obtain ⟨i, hi⟩ := List.getElem?_of_mem hc
  rw [h.fresh.queue i c hi]
  rfl

/-- **The server is no amplifier.** In every run, whatever clients and upstreams send it, the answers it
has sent to clients and those that wait are together no more than the queries it has received, and the
datagrams it has sent to upstreams are no more than that for each zone. -/
theorem traffic_bounded (h : Run (step g) (LawfulStep g) (Sys.start fdListen kernel) tr s) :
    ((effects tr).filterMap takenAnswer).length + s.server.lsSendQueue.length ≤ queriesReceived tr ∧
    ((effects tr).filterMap takenQuery).length ≤ g.zones.length * queriesReceived tr := by
  obtain ⟨calls, ends, ht⟩ := tracked_run h
  have hcount : ∀ {β : Type} (f : Call → Option β), ((calls.map Prod.snd).filterMap f).length =
      (calls.map fun x => (f x.2).toList.length).sum := by
    intro β f
    rw [length_filterMap_eq_sum, List.map_map]
    rfl
  constructor
  · have hpaid := ht.family.sum_le (fun _ => True) pendingCount answerCount paid
      (fun e w _ => ⟨trivial, answers_paid g.zones w e⟩)
      fun p w₀ hp => ⟨trivial, pendingCount_setUp (ht.setUp p w₀ hp)⟩
    have hsubmitted := congrArg List.length ht.queue.order
    rw [hcount, List.length_map] at hsubmitted
    have hout : ((effects tr).filterMap takenAnswer).length + s.server.lsSendQueue.length ≤
        (ends ++ Lib.Fifo.marked s.server.lsSendQueue).length := by
      rw [ht.answers, ← List.length_append, Lib.Fifo.kept_settled]
      unfold kept
      rw [List.length_map]
      exact List.length_filter_le _ _
    exact hout.trans (hsubmitted.ge.trans (hpaid.trans (paid_actions g tr)))
  · have hpaid := ht.family.sum_le (fun w => w.vsDNSConnects.length = g.zones.length)
      (fun w => queuedCount w.vsDNSConnects) sendCount (fun e => g.zones.length * paid e) ?_
      fun p w₀ hp => ⟨(ht.setUp p w₀ hp).length, queuedCount_setUp (ht.setUp p w₀ hp)⟩
    · have hmul := sum_mul g.zones.length (fun x : WorkPtr × Work.Query.Event => paid x.2)
        (deliveries (actions g tr))
      rw [hmul] at hpaid
      rw [ht.queries, hcount]
      exact hpaid.trans (Nat.mul_le_mul_left _ (paid_actions g tr))
    · intro e w hw
      have hone := queries_paid g.zones e w
      rw [hw] at hone
      exact ⟨(conns_step g.zones e w).1.trans hw, hone⟩

end Run

theorem traffic_bounded_twoClients :
    queriesReceived (exec (step oneZone) twoClients [] (Sys.start 3 kernel0)).1 = 2 ∧
    ((effects (exec (step oneZone) twoClients [] (Sys.start 3 kernel0)).1).filterMap takenQuery).length ≤
      1 * queriesReceived (exec (step oneZone) twoClients [] (Sys.start 3 kernel0)).1 := by
  have hlawful : Allowed (step oneZone) (LawfulStep oneZone) twoClients (Sys.start 3 kernel0) := by
    decide +kernel
  exact ⟨by decide +kernel, (traffic_bounded (Run.start.exec hlawful)).2⟩

end DnsMultiZone.MainLoop.Traffic
