import DnsMultiZone.MainLoop.Ownership
import DnsMultiZone.Work.Answers

/-! # Works of the server

The server does nothing to a work but set it up, pass it events and free it. So what holds of every run of
a work holds of the works of the server.

* `work_step`: what an event of the main loop makes of a work; `works_inv`: the invariants of works.
* `work_run`: every work of a run of the server is in a state of a run of its own. -/

namespace DnsMultiZone.MainLoop.Works

open DnsMultiZone.Lib.BigEndian DnsMultiZone.Lib.Assoc DnsMultiZone.Lib.Runs DnsMultiZone.Lib.Handles
open DnsMultiZone.Config.ConfigType DnsMultiZone.Work.Connect
open DnsMultiZone.Work.Query hiding Event step
open DnsMultiZone.Work.Answers
open DnsMultiZone.MainLoop.Descriptors DnsMultiZone.MainLoop.Dispatch DnsMultiZone.MainLoop.Ownership

section Step

variable {g : Setup} {p : WorkPtr} {w : DNSQureyWork}

/-- An event of a work changes that work, what waits to be sent and which works are to be closed. -/
theorem server_workEvent (zones : Zones) (o : SendOutcome) (p : WorkPtr) (e : Work.Query.Event)
    (s : Server) : ∃ heap queue idle, (s.workEvent zones o p e).1 =
      { s with heap := heap, lsSendQueue := queue, ssIdle := idle } := by
  unfold Server.workEvent
  rcases s.heap.lookup p with _ | w
  · exact ⟨_, _, _, rfl⟩
  · obtain ⟨queue, idle, he⟩ := performAll_server o (Work.Query.step zones e w).2
      { s with heap := s.heap.insert p (Work.Query.step zones e w).1 }
    exact ⟨_, queue, idle, he⟩

theorem managers_workEvent (zones : Zones) (o : SendOutcome) (p : WorkPtr) (e : Work.Query.Event)
    (s : Server) : (s.workEvent zones o p e).1.spConnectionManager = s.spConnectionManager ∧
      (s.workEvent zones o p e).1.spWorkManager = s.spWorkManager := by
  obtain ⟨heap, queue, idle, he⟩ := server_workEvent zones o p e s
  rw [he]
  exact ⟨rfl, rfl⟩

theorem heap_workEvent {s : Server} {zones : Zones} {o : SendOutcome} {e : Work.Query.Event}
    (hw : s.heap.lookup p = some w) :
    (s.workEvent zones o p e).1.heap = s.heap.insert p (Work.Query.step zones e w).1 := by
  unfold Server.workEvent
  rw [hw]
  obtain ⟨queue, idle, he⟩ := performAll_server o (Work.Query.step zones e w).2
    { s with heap := s.heap.insert p (Work.Query.step zones e w).1 }
  dsimp only
  rw [he]

theorem epollAdd_notMem_workEvent (zones : Zones) (o : SendOutcome) (p : WorkPtr)
    (e : Work.Query.Event) (s : Server) (fd : Fd) : .epollAdd fd ∉ (s.workEvent zones o p e).2 := by
  intro h
  obtain ⟨w, c, -, -, hp⟩ := mem_workEvent h
  cases hp

theorem lookup_workEvent {s : Server} {zones : Zones} {o : SendOutcome} {p' : WorkPtr}
    {e : Work.Query.Event} (h : (s.workEvent zones o p' e).1.heap.lookup p = some w) :
    s.heap.lookup p = some w ∨
      p = p' ∧ ∃ w₀, s.heap.lookup p = some w₀ ∧ w = (Work.Query.step zones e w₀).1 := by
  rcases hw : s.heap.lookup p' with _ | w₀
  · unfold Server.workEvent at h
    rw [hw] at h
    exact Or.inl h
  · rw [heap_workEvent hw] at h
    rcases lookup_insert_cases h with ⟨rfl, rfl⟩ | ⟨-, h⟩
    · exact Or.inr ⟨rfl, w₀, hw, rfl⟩
    · exact Or.inl h

/-- What an event of the main loop makes of the work at `p`: it stays, an upstream does something, or a
datagram of its client is handed to it, for which it is set up if it is not there. -/
inductive WorkStep (g : Setup) (s : Server) (p : WorkPtr) : Event → DNSQureyWork → Prop
  | kept {e : Event} {w : DNSQureyWork} (hw : s.heap.lookup p = some w) : WorkStep g s p e w
  | upstream {e : Event} {e' : Work.Query.Event} {w : DNSQureyWork} (hw : s.heap.lookup p = some w)
      (he : ∀ l d now outs, e' ≠ .recv l d now outs) :
      WorkStep g s p e (Work.Query.step g.zones e' w).1
  | datagram {r : Received} {now : ℕ} {conn : ℕ → ConnectOutcome} {outs : ℕ → SendOutcome}
      {w : DNSQureyWork} (hw : s.heap.lookup p = some w) (hb : r.sBuffer ≠ [])
      (hp : s.spWorkManager.lookup (addrToString g.inet r.addrClient) = some p) :
      WorkStep g s p (.listenRead r now conn outs)
        (Work.Query.step g.zones (.recv r.localAddr r.sBuffer now outs) w).1
  | client {r : Received} {now : ℕ} {conn : ℕ → ConnectOutcome} {outs : ℕ → SendOutcome}
      (hp : p = s.nextPtr) (hb : r.sBuffer ≠ [])
      (hkey : addrToString g.inet r.addrClient ∉ s.spWorkManager) (hi : (inited g conn s).ok = true) :
      WorkStep g s p (.listenRead r now conn outs)
        (Work.Query.step g.zones (.recv r.localAddr r.sBuffer now outs) (newWork g r conn s)).1

/-- **What an event makes of the works**. -/
theorem work_step {s : Sys} {log : List (Op Fd)} (ho : Owned s.server s.kernel log) {e : Event}
    (hl : LawfulStep g s e) (h : (step g e s).1.server.heap.lookup p = some w) :
    WorkStep g s.server p e w := by
  have hsession : ∀ o fd (e' : ℕ → Work.Query.Event), (∀ i l d now outs, e' i ≠ .recv l d now outs) →
      (s.server.session g.zones o fd e').1.heap.lookup p = some w → WorkStep g s.server p e w := by
    intro o fd e' he' h
    rcases session_cases g.zones o fd e' s.server with ⟨-, he⟩ | ⟨c, -, he⟩ <;> rw [he] at h
    · exact .kept h
    · rcases lookup_workEvent h with h | ⟨-, w₀, hw₀, rfl⟩
      · exact .kept h
      · exact .upstream hw₀ (he' _)
  cases e with
  | listenRead r now conn outs =>
    have h : (s.server.onListenRead g r now conn outs).1.heap.lookup p = some w := h
    rcases onListenRead_cases ho hl with ⟨-, he⟩ | ⟨hb, p', hp', he⟩ | ⟨hb, hkey, hli, he⟩ <;> rw [he] at h
    · exact .kept h
    · rcases lookup_workEvent h with h | ⟨rfl, w₀, hw₀, rfl⟩
      · exact .kept h
      · exact .datagram hw₀ hb hp'
    · have hi := (held_initLoop g.zones 0 ho.held hli).1
      have hnew : (withWork g r conn s.server).heap.lookup s.server.nextPtr =
          some (newWork g r conn s.server) := AList.lookup_insert _
      rw [heap_workEvent hnew] at h
      rcases lookup_insert_cases h with ⟨rfl, rfl⟩ | ⟨hne, h⟩
      · exact .client rfl hb hkey hi
      · exact .kept ((AList.lookup_insert_ne hne).symm.trans h)
  | listenWrite outs => exact .kept h
  | upstreamError fd => exact hsession _ _ _ (fun i l d now outs he => by cases he) h
  | upstreamRead fd d o => exact hsession _ _ _ (fun i l d now outs he => by cases he) h
  | upstreamWrite fd outs => exact hsession _ _ _ (fun i l d now outs he => by cases he) h
  | closeIdle => exact .kept ((lookup_heap_closeEach (f := (·.isIdle)) ho).mp h).1
  | clearTimeout now => exact .kept ((lookup_heap_closeEach ho).mp h).1
  | exitAndClear => exact .kept ((lookup_heap_closeEach (f := fun _ => true) ho).mp h).1

end Step

/-! ### Runs -/

/-- A work as `Init` leaves it: one connection for each zone, nothing queued and nothing pending. -/
structure SetUp (zones : Zones) (w : DNSQureyWork) : Prop where
  fresh : Fresh w
  length : w.vsDNSConnects.length = zones.length
  nIndex : ∀ (i : ℕ) (c : DNSConnect), w.vsDNSConnects[i]? = some c → c.nIndex = i

theorem conns_initLoop {p : WorkPtr} {conn : ℕ → ConnectOutcome} (zs : List ZoneInfo) (i : ℕ)
    {m : Map Fd ConnPtr} (hok : (initLoop p conn zs i m).ok = true) :
    (initLoop p conn zs i m).vsDNSConnects.length = zs.length ∧
      ∀ (j : ℕ) (c : DNSConnect), (initLoop p conn zs i m).vsDNSConnects[j]? = some c →
        c.nIndex = i + j ∧ c.lsWriteQueue = [] := by
  induction zs generalizing i m with
  | nil => exact ⟨rfl, fun j c hc => by cases hc⟩
  | cons z zs ih =>
    have hcons : ∀ {m' : Map Fd ConnPtr} (fd : Option Fd) (es : List Effect),
        (initLoop p conn zs (i + 1) m').ok = true →
        ((initLoop p conn zs (i + 1) m').cons ⟨i, fd, []⟩ es).vsDNSConnects.length = zs.length + 1 ∧
        ∀ (j : ℕ) (c : DNSConnect),
          ((initLoop p conn zs (i + 1) m').cons ⟨i, fd, []⟩ es).vsDNSConnects[j]? = some c →
            c.nIndex = i + j ∧ c.lsWriteQueue = [] := by
      intro m' fd es hok
      obtain ⟨hlen, hget⟩ := ih (i + 1) hok
      refine ⟨congrArg Nat.succ hlen, fun j c hc => ?_⟩
      rcases j with _ | j
      · cases hc
        exact ⟨rfl, rfl⟩
      · obtain ⟨hi, hq⟩ := hget j c hc
        exact ⟨by omega, hq⟩
    unfold initLoop at hok ⊢
    rcases hc : conn i with _ | fd | fd <;> simp only [hc] at hok ⊢
    · exact hcons _ _ hok
    · exact hcons _ _ hok
    · rcases hs : saveItem fd ⟨p, i⟩ m with _ | m' <;> simp only [hs] at hok ⊢
      · cases hok
      · exact hcons _ _ hok

theorem setUp_newWork {g : Setup} {r : Received} {conn : ℕ → ConnectOutcome} {s : Server}
    (hok : (inited g conn s).ok = true) : SetUp g.zones (newWork g r conn s) := by
  obtain ⟨hlen, hget⟩ := conns_initLoop g.zones 0 hok
  refine ⟨⟨fun n => rfl, fun i c hc => (hget i c hc).2⟩, hlen, fun i c hc => ?_⟩
  rw [(hget i c hc).1, Nat.zero_add]

section Run

variable {g : Setup} {fdListen : Fd} {kernel : Kernel} {tr : List (Entry Sys Event (List Effect))}
  {s : Sys}

/-- **Invariants of works**: what holds when a work is set up and is kept by every event of the work
holds of every work of every run of the server. -/
theorem works_inv {P : DNSQureyWork → Prop} (h0 : ∀ w, SetUp g.zones w → P w)
    (hs : ∀ e w, P w → P (Work.Query.step g.zones e w).1)
    (h : Run (step g) (LawfulStep g) (Sys.start fdListen kernel) tr s) {p : WorkPtr} {w : DNSQureyWork}
    (hw : s.server.heap.lookup p = some w) : P w := by
  induction h generalizing p w with
  | start => cases hw
  | next e hrun hok ih =>
    cases work_step (owned_run hrun) hok hw with
    | kept hw₀ => exact ih hw₀
    | upstream hw₀ he => exact hs _ _ (ih hw₀)
    | datagram hw₀ hb hp => exact hs _ _ (ih hw₀)
    | client hp hb hkey hi => exact hs _ _ (h0 _ (setUp_newWork hi))

/-- **Every work is in a run of its own**, from a work as `Init` leaves it. -/
theorem work_run (h : Run (step g) (LawfulStep g) (Sys.start fdListen kernel) tr s) {p : WorkPtr}
    {w : DNSQureyWork} (hw : s.server.heap.lookup p = some w) :
    ∃ w₀ tr', SetUp g.zones w₀ ∧ Run (Work.Query.step g.zones) anyStep w₀ tr' w := by
  refine works_inv (P := fun w => ∃ w₀ tr', SetUp g.zones w₀ ∧
    Run (Work.Query.step g.zones) anyStep w₀ tr' w) ?_ ?_ h hw
  · exact fun w hw => ⟨w, [], hw, Run.start⟩
  · rintro e w ⟨w₀, tr', h0, hrun⟩
    exact ⟨w₀, _, h0, Run.next e hrun trivial⟩

end Run

end DnsMultiZone.MainLoop.Works
