import DnsMultiZone.Lib.Fifo
import DnsMultiZone.MainLoop.Dispatch

/-! # The send queues

`Server::SendTo` and `DNSConnect::SendDNSQueryBuffer` send at once if nothing is queued, and queue what
the kernel does not take yet. `OnListenWrite` and `Write` send what is queued, as long as the kernel takes
it. Both queues are the queue of `Lib.Fifo`: a call submits a datagram or settles the first ones
(`Sending.reached`). A sender is given by its two functions (`Sender`).

* `Sender.exact`: over every run nothing is lost, doubled or reordered, and `EPOLLOUT` is asked for exactly
  while something is queued.
* `queues_exact`: the two senders there are. -/

namespace DnsMultiZone.MainLoop.SendQueue

open DnsMultiZone.Lib.BigEndian DnsMultiZone.Lib.Assoc DnsMultiZone.Lib.Runs DnsMultiZone.Lib.Fifo
open DnsMultiZone.Work.Connect DnsMultiZone.Work.Connect.DNSConnect
open DnsMultiZone.MainLoop.Descriptors
open DnsMultiZone.MainLoop.Dispatch (Server)

variable {α : Type}

/-! ### One call -/

/-- A call of one of the two functions, with what the kernel makes of its attempts to send. -/
inductive Sending (α : Type)
  | submit (d : α) (o : SendOutcome)
  | flush (outs : ℕ → SendOutcome)

/-- The datagrams a call submits. -/
def Sending.submitted : Sending α → List α
  | .submit d _ => [d]
  | .flush _ => []

/-- The datagrams of a queue whose attempts come to an end, each with whether the kernel takes it. An
attempt that would block comes to none. -/
def flushEnds (outs : ℕ → SendOutcome) : ℕ → List α → List (α × Bool)
  | _, [] => []
  | k, d :: ds =>
    match outs k with
    | .wouldBlock => []
    | .failed => (d, false) :: flushEnds outs (k + 1) ds
    | .sent => (d, true) :: flushEnds outs (k + 1) ds

/-- The datagrams whose attempts come to an end in a call: the one submitted if nothing is queued, or the
first of the queue. -/
def Sending.ends (queue : List α) : Sending α → List (α × Bool)
  | .submit d o => if queue = [] then flushEnds (fun _ => o) 0 [d] else []
  | .flush outs => flushEnds outs 0 queue

/-- What is queued after a call. -/
def Sending.queue (queue : List α) : Sending α → List α
  | .submit d o => if queue = [] ∧ o ≠ .wouldBlock then [] else queue ++ [d]
  | .flush outs => (writeLoop outs 0 queue).2

theorem writeLoop_fst (outs : ℕ → SendOutcome) (k : ℕ) (q : List α) :
    (writeLoop outs k q).1 = kept (flushEnds outs k q) := by
  induction q generalizing k with
  | nil => rfl
  | cons d ds ih =>
    rw [writeLoop, flushEnds]
    rcases outs k with _ | _ | _
    · exact congrArg (d :: ·) (ih (k + 1))
    · rfl
    · exact ih (k + 1)

theorem writeLoop_snd (outs : ℕ → SendOutcome) (k : ℕ) (q : List α) :
    (flushEnds outs k q).map Prod.fst ++ (writeLoop outs k q).2 = q := by
  induction q generalizing k with
  | nil => rfl
  | cons d ds ih =>
    rw [writeLoop, flushEnds]
    rcases outs k with _ | _ | _
    · exact congrArg (d :: ·) (ih (k + 1))
    · rfl
    · exact congrArg (d :: ·) (ih (k + 1))

/-- **A call moves the queue** as a queue before a sender moves. -/
theorem Sending.reached {submitted queue : List α} {settled : List (α × Bool)}
    (h : Reached submitted settled queue) (e : Sending α) :
    Reached (submitted ++ e.submitted) (settled ++ e.ends queue) (e.queue queue) := by
  cases e with
  | flush outs =>
    rw [Sending.submitted, List.append_nil]
    refine Reached.settleAll _ ?_
    rw [Sending.ends, Sending.queue, writeLoop_snd]
    exact h
  | submit d o =>
    have hsub := h.submit d
    rw [Sending.submitted, Sending.ends, Sending.queue]
    by_cases hq : queue = []
    · subst hq
      rw [if_pos rfl]
      cases o with
      | sent => exact hsub.settle true
      | wouldBlock => simpa [flushEnds] using hsub
      | failed => exact hsub.settle false
    · rw [if_neg hq, if_neg fun hn => hq hn.1, List.append_nil]
      exact hsub

theorem ends_submit (o : SendOutcome) (d : α) : Sending.ends [] (.submit d o) =
    match o with
    | .sent => [(d, true)]
    | .wouldBlock => []
    | .failed => [(d, false)] := by
  cases o <;> rfl

/-- A datagram that is queued has no attempt that comes to an end. -/
theorem ends_submit_of_queued {q : List α} {d : α} {o : SendOutcome} (h : ¬ (q = [] ∧ o ≠ .wouldBlock)) :
    Sending.ends q (.submit d o) = [] := by
  by_cases hq : q = []
  · obtain rfl : o = .wouldBlock := by
      by_contra ho
      exact h ⟨hq, ho⟩
    rw [hq, ends_submit]
  · exact if_neg hq

/-! ### A sender over a run -/

/-- The descriptor is in the epoll set, and listened to for `EPOLLOUT` exactly while something is queued. -/
def Armed (k : Kernel) (fd : Fd) (queue : List α) : Prop :=
  ∃ pollOut, k.epoll.lookup fd = some pollOut ∧ (pollOut = true ↔ queue ≠ [])

theorem lookup_epollMod {fd : Fd} {k : Kernel} {b pollOut : Bool} (h : k.epoll.lookup fd = some b) :
    (k.apply (.epollMod fd pollOut)).epoll.lookup fd = some pollOut := by
  rw [Kernel.apply, if_pos (mem_of_lookup h)]
  exact AList.lookup_insert _

theorem lookup_epollAdd {fd : Fd} {k : Kernel} (ho : fd ∈ k.opened) (he : fd ∉ k.epoll) :
    (k.apply (.epollAdd fd)).epoll.lookup fd = some false := by
  rw [Kernel.apply, if_pos ⟨ho, he⟩]
  exact AList.lookup_insert _

theorem armed_mod {fd : Fd} {k : Kernel} {queue queue' : List α} {pollOut : Bool} (h : Armed k fd queue)
    (hp : pollOut = true ↔ queue' ≠ []) : Armed (k.run [.epollMod fd pollOut]) fd queue' := by
  obtain ⟨b, hb, -⟩ := h
  exact ⟨pollOut, lookup_epollMod hb, hp⟩

/-- What a call that submits `d` does to the queue and puts out: it sends, drops or queues. -/
def Submits (fd : Fd) (send : α → Effect) (d : α) (o : SendOutcome) (q q' : List α) (es : List Effect) :
    Prop :=
  (q = [] ∧ o = .sent ∧ q' = [] ∧ es = [send d]) ∨
  (q = [] ∧ o = .failed ∧ q' = [] ∧ es = []) ∨
  (¬ (q = [] ∧ o ≠ .wouldBlock) ∧ q' = q ++ [d] ∧ es = [.epollMod fd true])

/-- What a call that sends what is queued does to the queue and puts out. -/
def Flushes (fd : Fd) (send : α → Effect) (outs : ℕ → SendOutcome) (q q' : List α) (es : List Effect) :
    Prop :=
  q' = (writeLoop outs 0 q).2 ∧ ∃ pollOut, (pollOut = true ↔ q' ≠ []) ∧
    es = (writeLoop outs 0 q).1.map send ++ [.epollMod fd pollOut]

/-- A sender with descriptor `fd`: its two functions, its queue, and the effect of a datagram that the
kernel has taken. -/
structure Sender (σ α : Type) (fd : Fd) where
  step : Sending α → σ → σ × List Effect
  queue : σ → List α
  send : α → Effect
  taken : Effect → Option α
  taken_send : ∀ d, taken (send d) = some d
  taken_mod : ∀ pollOut, taken (.epollMod fd pollOut) = none
  apply_send : ∀ d (k : Kernel), k.apply (send d) = k
  submits : ∀ d o s, Submits fd send d o (queue s) (queue (step (.submit d o) s).1) (step (.submit d o) s).2
  flushes : ∀ outs s,
    Flushes fd send outs (queue s) (queue (step (.flush outs) s).1) (step (.flush outs) s).2

variable {σ : Type} {fd : Fd}

/-- A run of calls, the newest first. -/
abbrev Calls (σ α : Type) := List (Entry (σ × Kernel) (Sending α) (List Effect))

/-- The datagrams submitted, in order. -/
def submitted : Calls σ α → List α
  | [] => []
  | x :: tr => submitted tr ++ x.event.submitted

/-- What the kernel has taken and then what is queued are, in order, what was submitted, without the
datagrams whose own attempt failed: those that `ends` does not mark. -/
structure NothingLost (submitted taken queue : List α) (ends : List (α × Bool)) : Prop where
  submitted_eq : submitted = (ends ++ marked queue).map Prod.fst
  taken_append : taken ++ queue = kept (ends ++ marked queue)

namespace Sender

theorem queue_step (m : Sender σ α fd) (e : Sending α) (s : σ) :
    m.queue (m.step e s).1 = e.queue (m.queue s) := by
  cases e with
  | flush outs => exact (m.flushes outs s).1
  | submit d o =>
    rw [Sending.queue]
    rcases m.submits d o s with ⟨hq, rfl, hq', -⟩ | ⟨hq, rfl, hq', -⟩ | ⟨hn, hq', -⟩
    · rw [hq', if_pos ⟨hq, by decide⟩]
    · rw [hq', if_pos ⟨hq, by decide⟩]
    · rw [hq', if_neg hn]

theorem filterMap_send (m : Sender σ α fd) (ds : List α) : (ds.map m.send).filterMap m.taken = ds := by
  induction ds with
  | nil => rfl
  | cons d ds ih => rw [List.map_cons, List.filterMap_cons_some (m.taken_send d), ih]

theorem run_send (m : Sender σ α fd) (ds : List α) (k : Kernel) : k.run (ds.map m.send) = k := by
  induction ds with
  | nil => rfl
  | cons d ds ih => rw [List.map_cons, Kernel.run_cons, m.apply_send, ih]

theorem taken_step (m : Sender σ α fd) (e : Sending α) (s : σ) :
    (m.step e s).2.filterMap m.taken = kept (e.ends (m.queue s)) := by
  cases e with
  | flush outs =>
    obtain ⟨-, b, -, he⟩ := m.flushes outs s
    rw [he, Sending.ends, ← writeLoop_fst, List.filterMap_append, m.filterMap_send,
      List.filterMap_cons_none (m.taken_mod b)]
    exact List.append_nil _
  | submit d o =>
    rcases m.submits d o s with ⟨hq, rfl, -, he⟩ | ⟨hq, rfl, -, he⟩ | ⟨hn, -, he⟩
    · rw [he, hq, ends_submit]
      exact m.filterMap_send [d]
    · rw [he, hq, ends_submit]
      rfl
    · rw [he, ends_submit_of_queued hn, List.filterMap_cons_none (m.taken_mod true)]
      rfl

theorem armed_step (m : Sender σ α fd) (e : Sending α) (s : σ) {k : Kernel}
    (h : Armed k fd (m.queue s)) : Armed (k.run (m.step e s).2) fd (m.queue (m.step e s).1) := by
  cases e with
  | flush outs =>
    obtain ⟨-, b, hb, he⟩ := m.flushes outs s
    rw [he, Kernel.run_append, m.run_send]
    exact armed_mod h hb
  | submit d o =>
    rcases m.submits d o s with ⟨hq, -, hq', he⟩ | ⟨hq, -, hq', he⟩ | ⟨-, hq', he⟩
    · rw [he, hq', ← hq]
      exact (m.run_send [d] k).symm ▸ h
    · rw [he, hq', ← hq]
      exact h
    · rw [he, hq']
      exact armed_mod h (by simp)

/-- A call, and what the kernel makes of it. -/
def call (m : Sender σ α fd) (e : Sending α) (s : σ × Kernel) : (σ × Kernel) × List Effect :=
  (((m.step e s.1).1, s.2.run (m.step e s.1).2), (m.step e s.1).2)

/-- The datagrams whose attempts have come to an end, in order, each with whether the kernel took it. -/
def ends (m : Sender σ α fd) : Calls σ α → List (α × Bool)
  | [] => []
  | x :: tr => m.ends tr ++ x.event.ends (m.queue x.before.1)

/-- The datagrams the kernel has taken, in order. -/
def takenBy (m : Sender σ α fd) : Calls σ α → List α
  | [] => []
  | x :: tr => m.takenBy tr ++ x.out.filterMap m.taken

variable {m : Sender σ α fd} {s₀ s : σ × Kernel} {tr : Calls σ α}

theorem reached (h0 : m.queue s₀.1 = []) (h : Run m.call anyStep s₀ tr s) :
    Reached (submitted tr) (m.ends tr) (m.queue s.1) := by
  induction h with
  | start =>
    rw [h0]
    exact Reached.start
  | @next tr s e h _ ih =>
    have hqueue : m.queue (m.call e s).1.1 = e.queue (m.queue s.1) := m.queue_step e s.1
    rw [hqueue]
    exact Sending.reached ih e

theorem takenBy_eq (h : Run m.call anyStep s₀ tr s) : m.takenBy tr = kept (m.ends tr) := by
  induction h with
  | start => rfl
  | @next tr s e h _ ih =>
    have htaken : (m.call e s).2.filterMap m.taken = kept (e.ends (m.queue s.1)) := m.taken_step e s.1
    rw [takenBy, ends, kept_append, ih, htaken]

theorem armed (h0 : Armed s₀.2 fd (m.queue s₀.1)) (h : Run m.call anyStep s₀ tr s) :
    Armed s.2 fd (m.queue s.1) := by
  induction h with
  | start => exact h0
  | @next tr s e h _ ih => exact m.armed_step e s.1 ih

/-- **Every run of a sender**: nothing is lost, doubled or reordered, and `EPOLLOUT` is asked for exactly
while something is queued. -/
theorem exact (h : Run m.call anyStep s₀ tr s) (hq : m.queue s₀.1 = [])
    (hk : s₀.2.epoll.lookup fd = some false) :
    NothingLost (submitted tr) (m.takenBy tr) (m.queue s.1) (m.ends tr) ∧ Armed s.2 fd (m.queue s.1) := by
  refine ⟨⟨(reached hq h).order, ?_⟩, armed ⟨false, hk, by simp [hq]⟩ h⟩
  rw [takenBy_eq h, kept_settled]

end Sender

/-! ### `Server` and `DNSConnect` -/

theorem submits_of_cases {send : α → Effect} {d : α} {o : SendOutcome} {q q' : List α} {es : List Effect}
    (hsent : q = [] ∧ o = .sent → q' = q ∧ es = [send d])
    (hfailed : ¬ (q = [] ∧ o = .sent) → q = [] ∧ o = .failed → q' = q ∧ es = [])
    (hqueued : ¬ (q = [] ∧ o = .sent) → ¬ (q = [] ∧ o = .failed) →
      q' = q ++ [d] ∧ es = [.epollMod fd true]) : Submits fd send d o q q' es := by
  by_cases hs : q = [] ∧ o = .sent
  · exact Or.inl ⟨hs.1, hs.2, (hsent hs).1.trans hs.1, (hsent hs).2⟩
  by_cases hf : q = [] ∧ o = .failed
  · obtain ⟨hq', hes⟩ := hfailed hs hf
    exact Or.inr (Or.inl ⟨hf.1, hf.2, hq'.trans hf.1, hes⟩)
  · refine Or.inr (Or.inr ⟨fun hn => ?_, hqueued hs hf⟩)
    cases o with
    | sent => exact hs ⟨hn.1, rfl⟩
    | wouldBlock => exact hn.2 rfl
    | failed => exact hf ⟨hn.1, rfl⟩

theorem submits_sendTo (s : Server) (d : ReplyAddr × Bytes) (o : SendOutcome) :
    Submits s.fdListen (fun d => .sendReply d.1 d.2) d o s.lsSendQueue (s.sendTo o d.1 d.2).1.lsSendQueue
      (s.sendTo o d.1 d.2).2 := by
  unfold Server.sendTo
  refine submits_of_cases (fun hs => ?_) (fun hs hf => ?_) fun hs hf => ?_
  · rw [if_pos hs]
    exact ⟨rfl, rfl⟩
  · rw [if_neg hs, if_pos hf]
    exact ⟨rfl, rfl⟩
  · rw [if_neg hs, if_neg hf]
    exact ⟨rfl, by simp [Server.updateListenEvents]⟩

theorem flushes_onListenWrite (s : Server) (outs : ℕ → SendOutcome) :
    Flushes s.fdListen (fun d => .sendReply d.1 d.2) outs s.lsSendQueue
      (s.onListenWrite outs).1.lsSendQueue (s.onListenWrite outs).2 :=
  ⟨rfl, _, by simp [Server.onListenWrite], rfl⟩

theorem fdListen_sendTo (s : Server) (d : ReplyAddr × Bytes) (o : SendOutcome) :
    (s.sendTo o d.1 d.2).1.fdListen = s.fdListen := by
  unfold Server.sendTo
  split_ifs <;> rfl

/-- The listening socket, which sends answers to clients. -/
def listenSender (fd : Fd) : Sender {s : Server // s.fdListen = fd} (ReplyAddr × Bytes) fd where
  step
    | .submit d o, s =>
      (⟨(s.1.sendTo o d.1 d.2).1, (fdListen_sendTo s.1 d o).trans s.2⟩, (s.1.sendTo o d.1 d.2).2)
    | .flush outs, s => (⟨(s.1.onListenWrite outs).1, s.2⟩, (s.1.onListenWrite outs).2)
  queue s := s.1.lsSendQueue
  send d := .sendReply d.1 d.2
  taken
    | .sendReply raAddr sData => some (raAddr, sData)
    | _ => none
  taken_send _ := rfl
  taken_mod _ := rfl
  apply_send _ _ := rfl
  submits d o s := by
    have h := submits_sendTo s.1 d o
    rwa [s.2] at h
  flushes outs s := by
    have h := flushes_onListenWrite s.1 outs
    rwa [s.2] at h

/-- What a call on a socket does outside of the work. The server passes it on (`perform_effect`). -/
def effect : Call → Option Effect
  | .send fd sBuffer => some (.send fd sBuffer)
  | .mod fd pollOut => some (.epollMod fd pollOut)
  | .del fd => some (.epollDel fd)
  | .sendTo _ _ | .workClose _ => none

theorem perform_effect {c : Call} {e : Effect} (h : effect c = some e) (s : Server) (o : SendOutcome) :
    s.perform o c = (s, [e]) := by
  cases c <;> cases h <;> rfl

theorem submits_sendDNSQueryBuffer {c : DNSConnect} (hc : c.fdSock = some fd) (d : Bytes)
    (o : SendOutcome) :
    Submits fd (.send fd) d o c.lsWriteQueue (c.sendDNSQueryBuffer o d).2.1.lsWriteQueue
      ((c.sendDNSQueryBuffer o d).2.2.filterMap effect) := by
  unfold sendDNSQueryBuffer
  simp only [hc]
  refine submits_of_cases (fun hs => ?_) (fun hs hf => ?_) fun hs hf => ?_
  · rw [if_pos hs]
    exact ⟨rfl, rfl⟩
  · rw [if_neg hs, if_pos hf]
    exact ⟨rfl, rfl⟩
  · rw [if_neg hs, if_neg hf]
    exact ⟨rfl, by simp [updateEvents, effect]⟩

theorem flushes_write {c : DNSConnect} (hc : c.fdSock = some fd) (outs : ℕ → SendOutcome) :
    Flushes fd (.send fd) outs c.lsWriteQueue (c.write outs).1.lsWriteQueue
      ((c.write outs).2.filterMap effect) := by
  have hall (l : List Bytes) : (l.map (Call.send fd)).filterMap effect = l.map (.send fd) := by
    induction l with
    | nil => rfl
    | cons d l ih => exact congrArg (Effect.send fd d :: ·) ih
  refine ⟨rfl, (writeLoop outs 0 c.lsWriteQueue).2 ≠ [], by simp [DNSConnect.write], ?_⟩
  unfold DNSConnect.write updateEvents
  simp only [hc, Option.elim_some]
  rw [List.filterMap_append, hall]
  rfl

/-- A socket to an upstream, which sends queries. -/
def upstreamSender (fd : Fd) : Sender {c : DNSConnect // c.fdSock = some fd} Bytes fd where
  step
    | .submit d o, c =>
      (⟨(c.1.sendDNSQueryBuffer o d).2.1, (fdSock_sendDNSQueryBuffer o d c.1).trans c.2⟩,
        (c.1.sendDNSQueryBuffer o d).2.2.filterMap effect)
    | .flush outs, c => (⟨(c.1.write outs).1, c.2⟩, (c.1.write outs).2.filterMap effect)
  queue c := c.1.lsWriteQueue
  send := .send fd
  taken
    | .send _ sBuffer => some sBuffer
    | _ => none
  taken_send _ := rfl
  taken_mod _ := rfl
  apply_send _ _ := rfl
  submits d o c := submits_sendDNSQueryBuffer c.2 d o
  flushes outs c := flushes_write c.2 outs

/-- **The send queues** of the server and of every connection, from the time their descriptor is added to
the epoll set: over any sequence of calls nothing is lost, doubled or reordered, and `EPOLLOUT` is asked
for exactly while something is queued. -/
theorem queues_exact (fd : Fd) (k : Kernel) :
    (∀ (s₀ : {s : Server // s.fdListen = fd}) tr s, s₀.1.lsSendQueue = [] → fd ∈ k.opened → fd ∉ k.epoll →
      Run (listenSender fd).call anyStep (s₀, k.apply (.epollAdd fd)) tr s →
      NothingLost (submitted tr) ((listenSender fd).takenBy tr) s.1.1.lsSendQueue
        ((listenSender fd).ends tr) ∧
      Armed s.2 fd s.1.1.lsSendQueue) ∧
    ∀ (c₀ : {c : DNSConnect // c.fdSock = some fd}) tr s, c₀.1.lsWriteQueue = [] → fd ∈ k.opened →
      fd ∉ k.epoll → Run (upstreamSender fd).call anyStep (c₀, k.apply (.epollAdd fd)) tr s →
      NothingLost (submitted tr) ((upstreamSender fd).takenBy tr) s.1.1.lsWriteQueue
        ((upstreamSender fd).ends tr) ∧
      Armed s.2 fd s.1.1.lsWriteQueue :=
  ⟨fun _ _ _ hq ho he h => Sender.exact h hq (lookup_epollAdd ho he),
    fun _ _ _ hq ho he h => Sender.exact h hq (lookup_epollAdd ho he)⟩

/-- Of two queries that had to wait, the first is lost to an error. -/
theorem queues_exact_two_queries : ∃ k : Kernel,
    NothingLost ([[1], [2]] : List Bytes) [[2]] [] [([1], false), ([2], true)] ∧
      Armed k 3 ([] : List Bytes) := by
  have h := run_exec (upstreamSender 3).call
    (⟨{ nIndex := 0, fdSock := some 3 }, rfl⟩, (⟨{3}, ∅⟩ : Kernel).apply (.epollAdd 3))
    [.submit [1] .wouldBlock, .submit [2] .sent, .flush fun n => if n = 0 then .failed else .sent]
  obtain ⟨hlost, harmed⟩ := (queues_exact 3 ⟨{3}, ∅⟩).2 _ _ _ rfl (by decide) (by decide) h
  exact ⟨_, hlost, harmed⟩

end DnsMultiZone.MainLoop.SendQueue
