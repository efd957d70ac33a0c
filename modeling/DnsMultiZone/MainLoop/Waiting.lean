import DnsMultiZone.MainLoop.Works

/-! # Zones that are waited for

A zone that is waited for should be able to answer: its socket is open and in the epoll set, so that a
reply or an error is noticed (`Answerable`). An upstream error takes the socket out of the epoll set but
leaves it to the connection, which goes on accepting sends; so a query created after the error waits for
a zone that is not listened to. Nothing else breaks the invariant.

* `answerable_step_iff`: which events keep it; `answerable_iff`: the runs of such events.
* `waits_for_dead_upstream`: an error, then a query. -/

namespace DnsMultiZone.MainLoop.Waiting

open DnsMultiZone.Lib.BigEndian DnsMultiZone.Lib.Assoc DnsMultiZone.Lib.Runs DnsMultiZone.Lib.Handles
open DnsMultiZone.Config.ConfigType DnsMultiZone.Work.Connect
open DnsMultiZone.Work.Query hiding Event step
open DnsMultiZone.Work.Scan DnsMultiZone.Work.Steps
open DnsMultiZone.MainLoop.Descriptors DnsMultiZone.MainLoop.Dispatch DnsMultiZone.MainLoop.Ownership
open DnsMultiZone.MainLoop.Works

/-- The socket of zone `i` of a work is open and in the epoll set. -/
def ListensAt (k : Kernel) (w : DNSQureyWork) (i : ℕ) : Prop :=
  ∃ fd, socketAt w.vsDNSConnects i = some fd ∧ k.Listens fd

/-- Every zone a work waits for is listened to. -/
def WorkAnswerable (k : Kernel) (w : DNSQureyWork) : Prop :=
  ∀ n wi i, pending w n = some wi → stateAt wi.vsDNSQueryResultItems i = some .wait → ListensAt k w i

/-- **Every zone that is waited for can answer**, for every pending query of every work. -/
def Answerable (s : Sys) : Prop :=
  ∀ sKey p w, s.server.spWorkManager.lookup sKey = some p → s.server.heap.lookup p = some w →
    WorkAnswerable s.kernel w

/-- **The events that keep it so**: when a client's datagram creates a query, every zone whose connection
accepts it is listened to. -/
def KeepsAnswerable (g : Setup) (s : Sys) : Event → Prop
  | .listenRead r _ _ outs => ∀ p w,
    s.server.spWorkManager.lookup (addrToString g.inet r.addrClient) = some p →
    s.server.heap.lookup p = some w → 2 ≤ r.sBuffer.length → pending w (queryID r.sBuffer) = none →
    ∀ i, IsAsked g.zones w r.sBuffer outs i → ListensAt s.kernel w i
  | _ => True

instance (k : Kernel) (w : DNSQureyWork) (i : ℕ) : Decidable (ListensAt k w i) :=
  inferInstanceAs (Decidable (∃ fd ∈ socketAt w.vsDNSConnects i, k.Listens fd))

instance (g : Setup) (s : Sys) : ∀ e : Event, Decidable (KeepsAnswerable g s e)
  | .listenRead r _ _ outs => decidable_of_iff
      (∀ p ∈ s.server.spWorkManager.lookup (addrToString g.inet r.addrClient),
        ∀ w ∈ s.server.heap.lookup p, 2 ≤ r.sBuffer.length → pending w (queryID r.sBuffer) = none →
          ∀ i < w.vsDNSConnects.length, IsAsked g.zones w r.sBuffer outs i → ListensAt s.kernel w i)
      ⟨fun h p w hp hw hl hn i hi => h p hp w hw hl hn i hi.lt hi,
        fun h p hp w hw hl hn i _ hi => h p w hp hw hl hn i hi⟩
  | .listenWrite _ | .upstreamError _ | .upstreamRead _ _ _ | .upstreamWrite _ _ | .closeIdle
  | .clearTimeout _ | .exitAndClear => isTrue trivial

/-! ### One work -/

section Work

variable {s : Server} {k : Kernel} {log : List (Op Fd)} {zones : Zones} {p : WorkPtr} {w : DNSQureyWork}

/-- Every work waits only for zones that are listened to. -/
def AllAnswerable (s : Server) (k : Kernel) : Prop := ∀ p w, s.heap.lookup p = some w → WorkAnswerable k w

/-- Only an error of an upstream takes a socket out of the epoll set. -/
theorem epollDel_workEvent {o : SendOutcome} {e : Work.Query.Event} {fd : Fd}
    (hw : s.heap.lookup p = some w) (h : .epollDel fd ∈ (s.workEvent zones o p e).2) :
    ∃ i, e = .disconnect i ∧ socketAt w.vsDNSConnects i = some fd := by
  obtain ⟨w', c, hw', hc, hp⟩ := mem_workEvent h
  obtain rfl := Option.some.inj (hw.symm.trans hw')
  cases hp
  by_cases hr : ∃ i d, e = .read i d
  · obtain ⟨i, d, rfl⟩ := hr
    obtain ⟨wi, _, _, _, ⟨out, _, hx⟩ | ⟨_, hx⟩⟩ := mem_calls_read.mp hc
    all_goals cases hx
  · obtain ⟨i, c, fd', hc', hf, ⟨d, hx, -⟩ | ⟨b, hx⟩ | ⟨hx, he⟩⟩ :=
      mem_calls_step hc fun i d hd => hr ⟨i, d, hd⟩
    · cases hx
    · cases hx
    · cases hx
      exact ⟨i, he, socketAt_eq_some.mpr ⟨c, hc', hf⟩⟩

theorem quiet_workEvent (o : SendOutcome) (e : Work.Query.Event) :
    Quiet (s.workEvent zones o p e).2 := by
  intro x hx
  obtain ⟨w, c, -, -, hp⟩ := mem_workEvent hx
  cases hp
  all_goals rfl

theorem ListensAt.workEvent {p' : WorkPtr} {w' : DNSQureyWork} {i : ℕ} (h : ListensAt k w' i)
    (ho : Owned s k log) (hw : s.heap.lookup p = some w) (hw' : s.heap.lookup p' = some w')
    (o : SendOutcome) {e : Work.Query.Event} (he : p' = p → e ≠ .disconnect i) :
    ListensAt (k.run (s.workEvent zones o p e).2) w' i := by
  obtain ⟨fd, hs, hl⟩ := h
  refine ⟨fd, hs, hl.run (fun hd => ?_) fun hc => by cases quiet_workEvent o e _ hc⟩
  obtain ⟨j, hj, hsj⟩ := epollDel_workEvent hw hd
  have hc : (⟨p', i⟩ : ConnPtr) = ⟨p, j⟩ := ho.same_conn ⟨w', hw', hs⟩ ⟨w, hw, hsj⟩
  obtain ⟨hp, rfl⟩ := ConnPtr.mk.inj hc
  exact he hp hj

/-- **One event of a work**, which creates no query for a zone that is not listened to. -/
theorem AllAnswerable.workEvent (h : AllAnswerable s k) (ho : Owned s k log) (o : SendOutcome)
    {e : Work.Query.Event} (hnew : ∀ l d now outs w, e = .recv l d now outs → s.heap.lookup p = some w →
      2 ≤ d.length → pending w (queryID d) = none → ∀ i, IsAsked zones w d outs i → ListensAt k w i) :
    AllAnswerable (s.workEvent zones o p e).1 (k.run (s.workEvent zones o p e).2) := by
  rcases hw : s.heap.lookup p with _ | w
  · unfold Server.workEvent
    rw [hw]
    exact h
  intro p' w' hw' n wi i hp hwait
  rw [heap_workEvent hw] at hw'
  rcases lookup_insert_cases hw' with ⟨rfl, rfl⟩ | ⟨hne, hw'⟩
  · have hback : ListensAt k w i → e ≠ .disconnect i →
        ListensAt (k.run (s.workEvent zones o p' e).2) (Work.Query.step zones e w).1 i := by
      intro hl he
      have hl : ListensAt (k.run (s.workEvent zones o p' e).2) w i :=
        hl.workEvent ho hw hw o fun _ => he
      obtain ⟨fd, hs, hl⟩ := hl
      exact ⟨fd, (socketAt_step zones e w i).trans hs, hl⟩
    rcases waiting_step hp hwait with ⟨he, wi, hp, hwait⟩ | ⟨l, d, now, outs, rfl, hd, rfl, hn, ha⟩
    · exact hback (h p' w hw n wi i hp hwait) he
    · exact hback (hnew l d now outs w rfl hw hd hn i ha) fun he => by cases he
  · exact (h p' w' hw' n wi i hp hwait).workEvent ho hw hw' o fun he => absurd he hne

end Work

/-! ### New works -/

section New

variable {s : Server} {k : Kernel} {log : List (Op Fd)} {g : Setup} {r : Received} {p : WorkPtr}
  {conn : ℕ → ConnectOutcome}

theorem mem_epoll_added (k : Kernel) (fd : Fd) : fd ∈ (k.run [.socket fd, .epollAdd fd]).epoll := by
  by_cases h : fd ∈ k.epoll <;> simp [Kernel.apply, h]

/-- What is filed when a work is set up is listened to, if it was before. -/
theorem epoll_initLoop (zs : List ZoneInfo) (i : ℕ) {m : Map Fd ConnPtr} {fd : Fd} (h : Held m k log)
    (hl : Lawful k (initLoop p conn zs i m).effects)
    (hfd : fd ∈ (initLoop p conn zs i m).spConnectionManager) (hm : fd ∈ m → fd ∈ k.epoll) :
    fd ∈ (k.run (initLoop p conn zs i m).effects).epoll := by
  induction zs generalizing i m k log with
  | nil => exact hm hfd
  | cons z zs ih =>
    unfold initLoop at hl hfd ⊢
    rcases hc : conn i with _ | fd₀ | fd₀ <;> simp only [hc] at hl hfd ⊢
    · exact ih (i + 1) h hl hfd hm
    · obtain ⟨hl₀, hl⟩ := lawful_append.mp hl
      show fd ∈ (k.run (_ ++ _)).epoll
      rw [Kernel.run_append]
      refine ih (i + 1) (h.refused hl₀.1) hl hfd fun hfm => ?_
      exact AList.mem_erase.mpr ⟨fun he => hl₀.1 (he ▸ h.opened fd hfm), hm hfm⟩
    · rcases hs : saveItem fd₀ ⟨p, i⟩ m with _ | m' <;> simp only [hs] at hl hfd ⊢
      · exact mem_epoll_run (hm hfd) (by simp) (by simp)
      · unfold saveItem at hs
        split_ifs at hs with hm₀
        cases hs
        obtain ⟨hl₀, hl⟩ := lawful_append.mp hl
        show fd ∈ (k.run (_ ++ _)).epoll
        rw [Kernel.run_append]
        refine ih (i + 1) (h.connected hl₀.1 _) hl hfd fun hfm => ?_
        rcases (AList.mem_insert _).mp hfm with rfl | hfm
        · exact mem_epoll_added k fd
        · exact mem_epoll_run (hm hfm) (by simp) (by simp)

/-- **A new work** is listened to at every zone, and the other works are as before. -/
theorem listensAt_withWork (ho : Owned s k log) (hkey : addrToString g.inet r.addrClient ∉ s.spWorkManager)
    (hl : Lawful k (inited g conn s).effects) :
    (∀ p w i, s.heap.lookup p = some w → ListensAt k w i →
      ListensAt (k.run (inited g conn s).effects) w i) ∧
    ∀ i fd, socketAt (newWork g r conn s).vsDNSConnects i = some fd →
      (k.run (inited g conn s).effects).Listens fd := by
  have hnew := ho.withWork hkey hl
  have hpnew : ∀ {p w}, s.heap.lookup p = some w → p ≠ s.nextPtr := fun hw he =>
    ho.nextPtr_notMem (he ▸ mem_of_lookup hw)
  have hlistens : ∀ fd c, (withWork g r conn s).spConnectionManager.lookup fd = some c →
      (fd ∈ s.spConnectionManager → fd ∈ k.epoll) → (k.run (inited g conn s).effects).Listens fd := by
    intro fd c hfd hm
    have hmem := mem_of_lookup hfd
    exact ⟨hnew.held.opened fd hmem, epoll_initLoop g.zones 0 ho.held hl hmem hm⟩
  constructor
  · rintro p w i hw ⟨fd, hs, hlk⟩
    have hw' : (withWork g r conn s).heap.lookup p = some w :=
      (AList.lookup_insert_ne (hpnew hw)).trans hw
    exact ⟨fd, hs, hlistens fd ⟨p, i⟩ ((hnew.entries fd ⟨p, i⟩).mpr ⟨w, hw', hs⟩) fun _ => hlk.2⟩
  · intro i fd hs
    have hsock : HasSocket (withWork g r conn s) ⟨s.nextPtr, i⟩ fd := ⟨_, AList.lookup_insert _, hs⟩
    refine hlistens fd _ ((hnew.entries fd _).mpr hsock) fun hm => ?_
    -- What was filed before belongs to another work.
    obtain ⟨c, hc⟩ := Option.isSome_iff_exists.mp (AList.lookup_isSome.mpr hm)
    obtain ⟨w, hw, hs'⟩ := (ho.entries fd c).mp hc
    have hsock' : HasSocket (withWork g r conn s) c fd :=
      ⟨w, (AList.lookup_insert_ne (hpnew hw)).trans hw, hs'⟩
    exact absurd (congrArg ConnPtr.work (hnew.same_conn hsock' hsock)) (hpnew hw)

theorem AllAnswerable.withWork (h : AllAnswerable s k) (ho : Owned s k log)
    (hkey : addrToString g.inet r.addrClient ∉ s.spWorkManager)
    (hl : Lawful k (inited g conn s).effects) :
    AllAnswerable (withWork g r conn s) (k.run (inited g conn s).effects) := by
  intro p w hw n wi i hp hwait
  rcases lookup_insert_cases hw with ⟨-, rfl⟩ | ⟨-, hw⟩
  · cases hp
  · exact (listensAt_withWork ho hkey hl).1 p w i hw (h p w hw n wi i hp hwait)

end New

/-! ### Closing works -/

section Closing

variable {s : Server} {k : Kernel} {log : List (Op Fd)} {f : DNSQureyWork → Bool}

theorem AllAnswerable.closeIf (h : AllAnswerable s k) (ho : Owned s k log) (sKey : Bytes) :
    AllAnswerable (s.closeIf f sKey).1 (k.run (s.closeIf f sKey).2) := by
  intro p w hw n wi i hp hwait
  have hw₀ := ((lookup_heap_closeIf ho).mp hw).1
  obtain ⟨fd, hs, hl⟩ := h p w hw₀ n wi i hp hwait
  have hstays : ∀ x ∈ (s.closeIf f sKey).2, x ≠ .epollDel fd ∧ x ≠ .close fd := by
    intro x hx
    obtain ⟨p', w', j, fd', -, hw', hheap, hs', hx⟩ := mem_closeIf hx
    have hne : fd' ≠ fd := by
      rintro rfl
      have hc : (⟨p', j⟩ : ConnPtr) = ⟨p, i⟩ := ho.same_conn ⟨w', hw', hs'⟩ ⟨w, hw₀, hs⟩
      obtain ⟨rfl, -⟩ := ConnPtr.mk.inj hc
      rw [hheap, AList.lookup_erase] at hw
      cases hw
    rcases hx with rfl | rfl <;> simp [hne]
  exact ⟨fd, hs, hl.run (fun hd => (hstays _ hd).1 rfl) fun hc => (hstays _ hc).2 rfl⟩

theorem AllAnswerable.closeEach (h : AllAnswerable s k) (ho : Owned s k log) (keys : List Bytes) :
    AllAnswerable (s.closeEach f keys).1 (k.run (s.closeEach f keys).2) := by
  induction keys generalizing s k log with
  | nil => exact h
  | cons sKey keys ih =>
    have hnext := ih (h.closeIf (f := f) ho sKey) (ho.closeIf sKey)
    rw [← Kernel.run_append] at hnext
    exact hnext

end Closing

/-! ### The main loop -/

section Main

variable {g : Setup} {s : Sys} {log : List (Op Fd)}

theorem answerable_iff_all (ho : Owned s.server s.kernel log) :
    Answerable s ↔ AllAnswerable s.server s.kernel :=
  ⟨fun h p w hw => h w.sKey p w ((ho.stored _ _).mpr ⟨w, hw, rfl⟩) hw,
    fun h _ p w _ hw => h p w hw⟩

theorem allAnswerable_step (ho : Owned s.server s.kernel log) (h : AllAnswerable s.server s.kernel)
    {e : Event} (hl : LawfulStep g s e) (hk : KeepsAnswerable g s e) :
    AllAnswerable (step g e s).1.server (step g e s).1.kernel := by
  have hsession : ∀ o fd e', (∀ i l d now outs, e' i ≠ .recv l d now outs) →
      AllAnswerable (s.server.session g.zones o fd e').1
        (s.kernel.run (s.server.session g.zones o fd e').2) := by
    intro o fd e' he
    rcases session_cases g.zones o fd e' s.server with ⟨hc, hs⟩ | ⟨c, -, hs⟩ <;> rw [hs]
    · intro p w hw n wi i hp hwait
      obtain ⟨fd', hs, hlk⟩ := h p w hw n wi i hp hwait
      refine ⟨fd', hs, hlk.run (fun hd => ?_) (by simp)⟩
      cases List.mem_singleton.mp hd
      rw [(ho.entries fd ⟨p, i⟩).mpr ⟨w, hw, hs⟩] at hc
      cases hc
    · exact h.workEvent ho o fun l d now outs w hr => absurd hr (he _ l d now outs)
  cases e with
  | listenRead r now conn outs =>
    show AllAnswerable (s.server.onListenRead g r now conn outs).1
      (s.kernel.run (s.server.onListenRead g r now conn outs).2)
    rcases onListenRead_cases ho hl with ⟨-, he⟩ | ⟨-, p, hp, he⟩ | ⟨-, hkey, hli, he⟩ <;> rw [he]
    · exact h
    · refine h.workEvent ho _ fun l d now outs w hr hw hd hn => ?_
      cases hr
      exact hk p w hp hw hd hn
    · rw [Kernel.run_append]
      refine (h.withWork ho hkey hli).workEvent (ho.withWork hkey hli) _ ?_
      intro l d now outs w hr hw hd hn i ha
      cases hr
      rcases lookup_insert_cases hw with ⟨-, rfl⟩ | ⟨hne, -⟩
      · obtain ⟨-, c, hc, hacc⟩ := ha
        obtain ⟨fd, hf⟩ := Option.ne_none_iff_exists'.mp hacc.1
        have hs := socketAt_eq_some.mpr ⟨c, hc, hf⟩
        exact ⟨fd, hs, (listensAt_withWork ho hkey hli).2 i fd hs⟩
      · exact absurd rfl hne
  | listenWrite outs =>
    intro p w hw n wi i hp hwait
    obtain ⟨fd, hs, hlk⟩ := h p w hw n wi i hp hwait
    refine ⟨fd, hs, hlk.run ?_ ?_⟩
    all_goals
      intro hx
      rcases mem_onListenWrite hx with ⟨ra, d, -, hx⟩ | ⟨b, hx⟩ <;> cases hx
  | upstreamError fd => exact hsession _ _ _ fun _ _ _ _ _ he => by cases he
  | upstreamRead fd d o => exact hsession _ _ _ fun _ _ _ _ _ he => by cases he
  | upstreamWrite fd outs => exact hsession _ _ _ fun _ _ _ _ _ he => by cases he
  | closeIdle => exact h.closeEach (f := (·.isIdle)) ho _
  | clearTimeout now => exact h.closeEach ho _
  | exitAndClear => exact h.closeEach (f := fun _ => true) ho _

/-- **One event** keeps it so that every zone that is waited for can answer exactly when it is of the
right kind. -/
theorem answerable_step_iff (ho : Owned s.server s.kernel log) (h : Answerable s) {e : Event}
    (hl : LawfulStep g s e) : Answerable (step g e s).1 ↔ KeepsAnswerable g s e := by
  have ho' := owned_step ho hl
  constructor
  · intro ha
    cases e with
    | listenRead r now conn outs =>
      intro p w hp hw hd hn i hi
      obtain ⟨ev, hev⟩ : ∃ ev, ev = Work.Query.Event.recv r.localAddr r.sBuffer now outs := ⟨_, rfl⟩
      have he : s.server.onListenRead g r now conn outs = s.server.workEvent g.zones .sent p ev := by
        unfold Server.onListenRead
        have hb : r.sBuffer ≠ [] := fun hb => by simp [hb] at hd
        rw [if_neg hb]
        simp only [hp, hev]
      have ha : AllAnswerable (s.server.onListenRead g r now conn outs).1
          (s.kernel.run (s.server.onListenRead g r now conn outs).2) := (answerable_iff_all ho').mp ha
      rw [he] at ha
      have hpend : pending (Work.Query.step g.zones ev w).1 (queryID r.sBuffer) =
          some (.created (queryID r.sBuffer) (queryType r.sBuffer) (askedFirst g.zones w r.sBuffer outs)) := by
        rw [hev]
        exact pending_recv_none hd hn
      have hlook : (s.server.workEvent g.zones .sent p ev).1.heap.lookup p =
          some (Work.Query.step g.zones ev w).1 := by
        rw [heap_workEvent hw, AList.lookup_insert]
      obtain ⟨fd, hs, hfd⟩ := ha p _ hlook _ _ i hpend (stateAt_askedFirst_wait.mpr hi)
      refine ⟨fd, (socketAt_step g.zones ev w i).symm.trans hs, ?_, ?_⟩
      · exact (quiet_workEvent .sent ev).opened ▸ hfd.1
      · exact mem_epoll_of_run hfd.2 (epollAdd_notMem_workEvent _ .sent _ ev _ fd)
    | _ => trivial
  · intro hk
    exact (answerable_iff_all ho').mpr (allAnswerable_step ho ((answerable_iff_all ho).mp h) hl hk)

/-- **When every zone that is waited for can answer.** In a run of events that create no query for a zone
that is not listened to, every zone that is waited for can answer in every state reached; and the next
event keeps it so exactly when it is one of them. -/
theorem answerable_iff {fdListen : Fd} {kernel : Kernel} {tr : List (Entry Sys Event (List Effect))}
    (h : Run (step g) (fun s e => LawfulStep g s e ∧ KeepsAnswerable g s e) (Sys.start fdListen kernel)
      tr s) :
    Answerable s ∧ ∀ e, LawfulStep g s e → (Answerable (step g e s).1 ↔ KeepsAnswerable g s e) := by
  have ho : ∀ {tr s}, Run (step g) (fun s e => LawfulStep g s e ∧ KeepsAnswerable g s e)
      (Sys.start fdListen kernel) tr s → Owned s.server s.kernel (ops (effects tr)) :=
    fun h => owned_run (h.mono fun _ _ => And.left)
  have ha : Answerable s := by
    induction h with
    | start =>
      intro sKey p w hp
      cases hp
    | next e hrun hok ih => exact (answerable_step_iff (ho hrun) ih hok.1).mpr hok.2
  exact ⟨ha, fun e hl => answerable_step_iff (ho h) ha hl⟩

end Main

/-- Two zones that take part in `A` questions. -/
def twoZones : Setup := ⟨[{ bHasV4 := true }, { bHasV4 := true }], oneZone.inet⟩

/-- Two queries of one client, an error of the second zone's upstream, and a query whose send to the second
zone reports that error: only the first zone is waited for. -/
def secondFailed : List Event :=
  [.listenRead (datagram (query 5 [97] 1)) 0 (fun i => .connected (5 + i)) fun _ => .sent,
    .listenRead (datagram (query 6 [97] 1)) 1 (fun _ => .unavailable) fun _ => .sent, .upstreamError 6,
    .listenRead (datagram (query 7 [97] 1)) 2 (fun _ => .unavailable) fun i => if i = 1 then .failed else .sent]

/-- What is waited for is listened to, until a query is accepted by the socket that failed. -/
theorem answerable_secondFailed :
    Answerable (exec (step twoZones) secondFailed [] (Sys.start 3 kernel0)).2 ∧
    ¬ Answerable (step twoZones
      (.listenRead (datagram (query 8 [97] 1)) 3 (fun _ => .unavailable) fun _ => .sent)
      (exec (step twoZones) secondFailed [] (Sys.start 3 kernel0)).2).1 := by
  have hrun : Run (step twoZones) (fun s e => LawfulStep twoZones s e ∧ KeepsAnswerable twoZones s e)
      (Sys.start 3 kernel0) _ _ := Run.start.exec (show Allowed _ _ secondFailed _ by decide +kernel)
  refine ⟨(answerable_iff hrun).1, fun h => ?_⟩
  exact absurd (((answerable_iff hrun).2 _ (by decide +kernel)).mp h) (by decide +kernel)

/-- A query, an error of the upstream, a query whose send reports that error, and one whose send is
accepted. -/
def afterError : List Event :=
  [.listenRead (datagram (query 5 [97] 1)) 0 (fun _ => .connected 5) fun _ => .sent, .upstreamError 5,
    .listenRead (datagram (query 6 [97] 1)) 1 (fun _ => .unavailable) fun _ => .failed,
    .listenRead (datagram (query 7 [97] 1)) 2 (fun _ => .unavailable) fun _ => .sent]

/-- The last query waits for a zone whose socket is not in the epoll set. -/
theorem waits_for_dead_upstream : ¬ ∀ (g : Setup) (fdListen : Fd) (kernel : Kernel) (s : Sys) (tr : List _),
    Run (step g) (LawfulStep g) (Sys.start fdListen kernel) tr s → Answerable s := by
  intro h
  have hok : Allowed (step oneZone) (LawfulStep oneZone) afterError (Sys.start 3 kernel0) := by
    decide +kernel
  have ha := h _ _ _ _ _ (Run.start.exec hok)
  have hw : ((exec (step oneZone) afterError [] (Sys.start 3 kernel0)).2.server.heap.lookup 0).map
      (fun w => ((pending w 7).map fun wi => stateAt wi.vsDNSQueryResultItems 0,
        socketAt w.vsDNSConnects 0)) = some (some (some .wait), some 5) := by
    decide +kernel
  obtain ⟨w, hw, he⟩ := Option.map_eq_some_iff.mp hw
  obtain ⟨hp, hs⟩ := Prod.mk.inj he
  obtain ⟨wi, hp, hwait⟩ := Option.map_eq_some_iff.mp hp
  obtain ⟨fd, hfd, hl⟩ := ha (addrToString oneZone.inet (.inet 0x0A000002 5353)) 0 w
    (by decide +kernel) hw 7 wi 0 hp hwait
  rw [hs] at hfd
  cases hfd
  exact absurd hl (by decide +kernel)

end DnsMultiZone.MainLoop.Waiting
