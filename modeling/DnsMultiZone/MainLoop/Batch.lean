import DnsMultiZone.MainLoop.Works

/-! # A round of the main loop

`epoll_wait` fills an array of ready descriptors. The round handles them in the order of the array, and
only then closes works, idle ones in every round and those that have timed out once in an interval.

Some descriptors of the epoll set are of `main` itself (`MainFds`): the listening socket, the one a signal
makes ready, and those of the watch on the files of nameservers. What is left are sockets of upstreams.

* `batch`, `Round.events`, `turn`: a round as events of the server; `run_turns`: rounds are such a run.
* `Registered`: every descriptor in the epoll set is of `main` or filed in `ConnectionManager`.
* `Kept`: what is filed stays filed until works are closed.
* `no_stale_event`: so an event of an upstream finds the connection that the descriptor was of. -/

namespace DnsMultiZone.MainLoop.Batch

open DnsMultiZone.Lib.BigEndian DnsMultiZone.Lib.Assoc DnsMultiZone.Lib.Runs DnsMultiZone.Lib.Handles
open DnsMultiZone.Config.ConfigType DnsMultiZone.Work.Connect
open DnsMultiZone.Work.Query hiding Event step
open DnsMultiZone.MainLoop.Descriptors DnsMultiZone.MainLoop.Dispatch DnsMultiZone.MainLoop.Ownership
open DnsMultiZone.MainLoop.Works

/-! ### Ready descriptors -/

/-- The descriptors of `main`. -/
structure MainFds where
  fdListenServer : Fd
  fdExitEvent : Fd
  fdsNotify : List Fd := []

def MainFds.Has (m : MainFds) (fd : Fd) : Prop :=
  fd = m.fdListenServer ∨ fd = m.fdExitEvent ∨ fd ∈ m.fdsNotify

instance (m : MainFds) (fd : Fd) : Decidable (m.Has fd) := by
  unfold MainFds.Has; infer_instance

/-- A datagram on the listening socket, with what it meets: the time, what comes of the connections of a
new work, and what the kernel makes of each send. -/
structure Arrival where
  received : Received
  now : ℕ
  conn : ℕ → ConnectOutcome
  outs : ℕ → SendOutcome

/-- An entry of the array, with what its calls return: `recvmsg` of the listening socket, `recv` of an
upstream, the send of an answer, the sends of a queue, and `INotify`. `pollErr` is any of `EPOLLRDHUP`,
`EPOLLHUP` and `EPOLLERR`. -/
structure Ready where
  fd : Fd
  pollErr : Bool := false
  pollIn : Bool := false
  pollOut : Bool := false
  arrivals : List Arrival := []
  sDNSData : Bytes := []
  answer : SendOutcome := .sent
  outs : ℕ → SendOutcome := fun _ => .sent
  bINotify : Bool := true

/-- The loop of `OnListenRead`. It reads `DEF_READ_PER_EVENT` datagrams at most, and stops at an empty
one. -/
def listenReads (arrivals : List Arrival) : List Event :=
  ((arrivals.take 64).takeWhile (·.received.sBuffer ≠ [])).map
    fun a => .listenRead a.received a.now a.conn a.outs

/-- What the round does with an entry; `none` leaves the main loop. -/
def MainFds.dispatch (m : MainFds) (e : Ready) : Option (List Event) :=
  if e.fd = m.fdListenServer then
    if e.pollIn = false ∧ e.pollOut = false then none
    else some ((if e.pollIn then listenReads e.arrivals else []) ++
      if e.pollOut then [.listenWrite e.outs] else [])
  else if e.fd = m.fdExitEvent then none
  else if e.fd ∈ m.fdsNotify then if e.bINotify then some [] else none
  else if e.pollErr then some [.upstreamError e.fd]
  else if e.pollIn then some [.upstreamRead e.fd e.sDNSData e.answer]
  else if e.pollOut then some [.upstreamWrite e.fd e.outs]
  else some []

/-- What the round does with the array. -/
def MainFds.batch (m : MainFds) : List Ready → Option (List Event)
  | [] => some []
  | e :: es => (m.dispatch e).bind fun now => (m.batch es).map (now ++ ·)

/-! ### Rounds -/

/-- The array of a round, with the two times that are read after it. -/
structure Round where
  ready : List Ready
  llNow : ℕ
  llNowClear : ℕ

/-- `llNow - llLastClean >= DEF_CLEAN_INTERVAL`; the times are `unsigned long long`. -/
def isCleanDue (llNow llLastClean : ℕ) : Bool := (llNow + 2 ^ 64 - llLastClean) % 2 ^ 64 ≥ 1000

/-- The calls after the array. -/
def Round.cleaning (r : Round) (llLastClean : ℕ) : List Event :=
  if isCleanDue r.llNow llLastClean then [.clearTimeout r.llNowClear] else []

/-- The server with the variable of the main loop. -/
structure Loop where
  sys : Sys
  llLastClean : ℕ := 0

/-- **A round** that does not leave the main loop; a round that does is `none`. -/
def Round.events (m : MainFds) (r : Round) (s : Loop) : Option (List Event) :=
  (m.batch r.ready).map fun es => es ++ .closeIdle :: r.cleaning s.llLastClean

def turn (g : Setup) (m : MainFds) (r : Round) (s : Loop) :
    Loop × List (Entry Sys Event (List Effect)) :=
  match r.events m s with
  | none => (s, [])
  | some es =>
    (⟨after (step g) es s.sys, if isCleanDue r.llNow s.llLastClean then r.llNow else s.llLastClean⟩,
      (exec (step g) es [] s.sys).1)

/-- The round runs to its end, and the kernel hands out no open descriptor in it. -/
def LawfulTurn (g : Setup) (m : MainFds) (s : Loop) (r : Round) : Prop :=
  ∃ es, r.events m s = some es ∧ Allowed (step g) (LawfulStep g) es s.sys

def Loop.start (m : MainFds) (kernel : Kernel) : Loop := ⟨Sys.start m.fdListenServer kernel, 0⟩

variable {g : Setup} {m : MainFds} {kernel : Kernel}

theorem run_turns {tr : List (Entry Loop Round (List (Entry Sys Event (List Effect))))} {s : Loop}
    (h : Run (turn g m) (LawfulTurn g m) (Loop.start m kernel) tr s) :
    ∃ tr', Run (step g) (LawfulStep g) (Sys.start m.fdListenServer kernel) tr' s.sys := by
  induction h with
  | start => exact ⟨[], Run.start⟩
  | next r _ hok ih =>
    obtain ⟨tr', hrun⟩ := ih
    obtain ⟨es, hes, hl⟩ := hok
    unfold turn
    rw [hes]
    exact ⟨_, exec_snd es tr' _ ▸ hrun.exec hl⟩

/-! ### What stays filed -/

/-- An event that closes works. -/
def Closes : Event → Prop
  | .closeIdle | .clearTimeout _ | .exitAndClear => True
  | _ => False

theorem not_closes_of_dispatch {e : Ready} {es : List Event} (h : m.dispatch e = some es) :
    ∀ x ∈ es, ¬ Closes x := by
  have hlisten : ∀ x ∈ listenReads e.arrivals, ¬ Closes x := by
    intro x hx
    obtain ⟨a, -, rfl⟩ := List.mem_map.mp hx
    exact id
  unfold MainFds.dispatch at h
  have hnone : ∀ x ∈ ([] : List Event), ¬ Closes x := fun x hx => by cases hx
  split_ifs at h <;> cases h
  · exact List.forall_mem_append.mpr ⟨hlisten, List.forall_mem_singleton.mpr id⟩
  · exact List.forall_mem_append.mpr ⟨hlisten, hnone⟩
  · exact List.forall_mem_singleton.mpr id
  · exact hnone
  · exact hnone
  · exact List.forall_mem_singleton.mpr id
  · exact List.forall_mem_singleton.mpr id
  · exact List.forall_mem_singleton.mpr id
  · exact hnone

theorem not_closes_of_batch {ready : List Ready} {es : List Event} (h : m.batch ready = some es) :
    ∀ x ∈ es, ¬ Closes x := by
  induction ready generalizing es with
  | nil =>
    cases h
    exact fun x hx => by cases hx
  | cons e ready ih =>
    obtain ⟨now, hnow, h⟩ := Option.bind_eq_some_iff.mp h
    obtain ⟨later, hlater, rfl⟩ := Option.map_eq_some_iff.mp h
    intro x hx
    rcases List.mem_append.mp hx with hx | hx
    · exact not_closes_of_dispatch hnow x hx
    · exact ih hlater x hx

/-- What is filed stays filed. -/
structure Kept (s s' : Server) : Prop where
  conns : ∀ fd c, s.spConnectionManager.lookup fd = some c → s'.spConnectionManager.lookup fd = some c
  works : ∀ sKey p, s.spWorkManager.lookup sKey = some p → s'.spWorkManager.lookup sKey = some p

theorem Kept.refl (s : Server) : Kept s s := ⟨fun _ _ h => h, fun _ _ h => h⟩

theorem Kept.trans {s s' s'' : Server} (h : Kept s s') (h' : Kept s' s'') : Kept s s'' :=
  ⟨fun fd c hc => h'.conns fd c (h.conns fd c hc), fun sKey p hp => h'.works sKey p (h.works sKey p hp)⟩

theorem kept_workEvent (zones : Zones) (o : SendOutcome) (p : WorkPtr) (e : Work.Query.Event)
    (s : Server) : Kept s (s.workEvent zones o p e).1 := by
  obtain ⟨hc, hw⟩ := managers_workEvent zones o p e s
  exact ⟨fun fd c h => hc ▸ h, fun sKey p h => hw ▸ h⟩

section Step

variable {s : Sys} {log : List (Op Fd)}

theorem kept_withWork (ho : Owned s.server s.kernel log) {r : Received} {conn : ℕ → ConnectOutcome}
    (hkey : addrToString g.inet r.addrClient ∉ s.server.spWorkManager)
    (hl : Lawful s.kernel (inited g conn s.server).effects) :
    Kept s.server (withWork g r conn s.server) := by
  have hok := (held_initLoop g.zones 0 ho.held hl).1
  refine ⟨fun fd c hc => (lookup_initLoop g.zones 0 hok).mpr (Or.inl hc), fun sKey p hp => ?_⟩
  exact (lookup_insert_iff hkey).mpr (Or.inr hp)

/-- **What an event that closes nothing is**: nothing but a change of what waits to be sent, an event of a
work that an upstream brings, or a datagram for the work of its client or for a new one. -/
theorem server_step (ho : Owned s.server s.kernel log) {e : Event} (hl : LawfulStep g s e)
    (he : ¬ Closes e) :
    (∃ queue, (step g e s).1.server = { s.server with lsSendQueue := queue }) ∨
    (∃ o p e', (∀ l d now outs, e' ≠ .recv l d now outs) ∧
      (step g e s).1.server = (s.server.workEvent g.zones o p e').1) ∨
    ∃ r now conn outs, e = .listenRead r now conn outs ∧ r.sBuffer ≠ [] ∧
      ((∃ p, s.server.spWorkManager.lookup (addrToString g.inet r.addrClient) = some p ∧
          (step g e s).1.server =
            (s.server.workEvent g.zones .sent p (.recv r.localAddr r.sBuffer now outs)).1) ∨
        addrToString g.inet r.addrClient ∉ s.server.spWorkManager ∧
          Lawful s.kernel (inited g conn s.server).effects ∧
          (step g e s).1.server = ((withWork g r conn s.server).workEvent g.zones .sent s.server.nextPtr
            (.recv r.localAddr r.sBuffer now outs)).1) := by
  have hsession : ∀ o fd (e' : ℕ → Work.Query.Event), (∀ i l d now outs, e' i ≠ .recv l d now outs) →
      (∃ queue, (s.server.session g.zones o fd e').1 = { s.server with lsSendQueue := queue }) ∨
      ∃ o₁ p e₁, (∀ l d now outs, e₁ ≠ .recv l d now outs) ∧
        (s.server.session g.zones o fd e').1 = (s.server.workEvent g.zones o₁ p e₁).1 := by
    intro o fd e' he'
    rcases session_cases g.zones o fd e' s.server with ⟨-, he⟩ | ⟨c, -, he⟩ <;> rw [he]
    · exact Or.inl ⟨_, rfl⟩
    · exact Or.inr ⟨o, c.work, e' c.nIndex, he' c.nIndex, rfl⟩
  cases e with
  | listenRead r now conn outs =>
    have hread : (step g (.listenRead r now conn outs) s).1.server =
        (s.server.onListenRead g r now conn outs).1 := rfl
    rw [hread]
    rcases onListenRead_cases ho hl with ⟨-, he⟩ | ⟨hb, p, hp, he⟩ | ⟨hb, hkey, hli, he⟩ <;> rw [he]
    · exact Or.inl ⟨_, rfl⟩
    · exact Or.inr (Or.inr ⟨r, now, conn, outs, rfl, hb, Or.inl ⟨p, hp, rfl⟩⟩)
    · exact Or.inr (Or.inr ⟨r, now, conn, outs, rfl, hb, Or.inr ⟨hkey, hli, rfl⟩⟩)
  | listenWrite outs => exact Or.inl ⟨_, rfl⟩
  | upstreamError fd =>
    exact (hsession .sent fd .disconnect fun i l d now outs h => by cases h).imp_right Or.inl
  | upstreamRead fd d o =>
    exact (hsession o fd (.read · d) fun i l d now outs h => by cases h).imp_right Or.inl
  | upstreamWrite fd outs =>
    exact (hsession .sent fd (.write · outs) fun i l d now outs h => by cases h).imp_right Or.inl
  | closeIdle => exact absurd trivial he
  | clearTimeout now => exact absurd trivial he
  | exitAndClear => exact absurd trivial he

/-- **An event that closes nothing drops nothing.** -/
theorem kept_step (ho : Owned s.server s.kernel log) {e : Event} (hl : LawfulStep g s e)
    (he : ¬ Closes e) : Kept s.server (step g e s).1.server := by
  rcases server_step ho hl he with ⟨queue, hs⟩ | ⟨o, p, e', -, hs⟩ |
    ⟨r, now, conn, outs, -, -, ⟨p, -, hs⟩ | ⟨hkey, hli, hs⟩⟩ <;> rw [hs]
  · exact ⟨fun _ _ h => h, fun _ _ h => h⟩
  · exact kept_workEvent _ _ _ _ _
  · exact kept_workEvent _ _ _ _ _
  · exact (kept_withWork ho hkey hli).trans (kept_workEvent _ _ _ _ _)

/-- **Events that close nothing**, one after the other. -/
theorem kept_after (ho : Owned s.server s.kernel log) {es : List Event}
    (hl : Allowed (step g) (LawfulStep g) es s) (he : ∀ x ∈ es, ¬ Closes x) :
    Kept s.server (after (step g) es s).server ∧
      ∃ log', Owned (after (step g) es s).server (after (step g) es s).kernel log' := by
  induction es generalizing s log with
  | nil => exact ⟨Kept.refl _, log, ho⟩
  | cons e es ih =>
    obtain ⟨hfirst, hrest⟩ := List.forall_mem_cons.mp he
    obtain ⟨hkept, hown⟩ := ih (owned_step ho hl.1) hl.2 hrest
    exact ⟨(kept_step ho hl.1 hfirst).trans hkept, hown⟩

end Step

/-! ### What the epoll set holds -/

/-- Every descriptor in the epoll set was there at the start or is filed. -/
def Registered (m₀ : Map Fd Bool) (s : Server) (k : Kernel) : Prop :=
  ∀ fd ∈ k.epoll, fd ∈ m₀ ∨ fd ∈ s.spConnectionManager

section Registered

variable {m₀ : Map Fd Bool} {s : Server} {k : Kernel} {log : List (Op Fd)}

/-- Effects that add nothing to the set keep it so, if what is filed stays filed. -/
theorem Registered.run (h : Registered m₀ s k) {s' : Server} {es : List Effect}
    (ha : ∀ fd, .epollAdd fd ∉ es) (hs : s'.spConnectionManager = s.spConnectionManager) :
    Registered m₀ s' (k.run es) := by
  intro fd hfd
  rw [hs]
  exact h fd (mem_epoll_of_run hfd (ha fd))

theorem Registered.workEvent (h : Registered m₀ s k) (zones : Zones) (o : SendOutcome) (p : WorkPtr)
    (e : Work.Query.Event) :
    Registered m₀ (s.workEvent zones o p e).1 (k.run (s.workEvent zones o p e).2) :=
  h.run (epollAdd_notMem_workEvent zones o p e s) (managers_workEvent zones o p e s).1

theorem Registered.session (h : Registered m₀ s k) (zones : Zones) (o : SendOutcome) (fd : Fd)
    (e : ℕ → Work.Query.Event) :
    Registered m₀ (s.session zones o fd e).1 (k.run (s.session zones o fd e).2) := by
  rcases session_cases zones o fd e s with ⟨-, he⟩ | ⟨c, -, he⟩ <;> rw [he]
  · exact h.run (fun fd' hx => by cases List.mem_singleton.mp hx) rfl
  · exact h.workEvent zones o c.work _

/-- What is added to the set when a work is set up is filed. -/
theorem filed_of_epollAdd {p : WorkPtr} {conn : ℕ → ConnectOutcome} (zs : List ZoneInfo) (i : ℕ)
    {m : Map Fd ConnPtr} (hok : (initLoop p conn zs i m).ok = true) {fd : Fd}
    (h : .epollAdd fd ∈ (initLoop p conn zs i m).effects) :
    fd ∈ (initLoop p conn zs i m).spConnectionManager := by
  induction zs generalizing i m with
  | nil => cases h
  | cons z zs ih =>
    unfold initLoop at hok h ⊢
    rcases hc : conn i with _ | fd₀ | fd₀ <;> simp only [hc] at hok h ⊢
    · exact ih (i + 1) hok h
    · rcases List.mem_append.mp h with h | h
      · rcases List.mem_pair.mp h with h | h
        all_goals cases h
      · exact ih (i + 1) hok h
    · rcases hs : saveItem fd₀ ⟨p, i⟩ m with _ | m' <;> simp only [hs] at hok h ⊢
      · cases hok
      unfold saveItem at hs
      split_ifs at hs with hm
      cases hs
      rcases List.mem_append.mp h with h | h
      · rcases List.mem_pair.mp h with h | h <;> cases h
        exact mem_of_lookup ((lookup_initLoop zs (i + 1) hok).mpr (Or.inl (AList.lookup_insert m)))
      · exact ih (i + 1) hok h

theorem Registered.withWork (h : Registered m₀ s k) (ho : Owned s k log) {r : Received}
    {conn : ℕ → ConnectOutcome} (hl : Lawful k (inited g conn s).effects) :
    Registered m₀ (withWork g r conn s) (k.run (inited g conn s).effects) := by
  intro fd hfd
  have hok := (held_initLoop g.zones 0 ho.held hl).1
  by_cases ha : .epollAdd fd ∈ (inited g conn s).effects
  · exact Or.inr (filed_of_epollAdd g.zones 0 hok ha)
  refine (h fd (mem_epoll_of_run hfd ha)).imp_right fun hm => ?_
  obtain ⟨c, hc⟩ := Option.isSome_iff_exists.mp (AList.lookup_isSome.mpr hm)
  exact mem_of_lookup ((lookup_initLoop g.zones 0 hok).mpr (Or.inl hc))

theorem epoll_exitConns {cs : List DNSConnect} {m : Map Fd ConnPtr} {fd : Fd}
    (h : fd ∈ (k.run (exitConns cs m).2).epoll) :
    fd ∈ k.epoll ∧ ∀ i, socketAt cs i ≠ some fd := by
  induction cs generalizing m k with
  | nil => exact ⟨h, fun i hi => by cases hi⟩
  | cons c cs ih =>
    unfold exitConns at h
    rcases hs : c.fdSock with _ | fd₀ <;> simp only [hs] at h
    · obtain ⟨hk, hne⟩ := ih h
      refine ⟨hk, fun i hi => ?_⟩
      rcases i with _ | i
      · cases hs.symm.trans hi
      · exact hne i hi
    · obtain ⟨hk, hne⟩ := ih h
      obtain ⟨hfd, hk⟩ := AList.mem_erase.mp hk
      refine ⟨(AList.mem_erase.mp hk).2, fun i hi => ?_⟩
      rcases i with _ | i
      · cases hs.symm.trans hi
        exact hfd rfl
      · exact hne i hi

theorem Registered.closeIf (h : Registered m₀ s k) (f : DNSQureyWork → Bool) (sKey : Bytes) :
    Registered m₀ (s.closeIf f sKey).1 (k.run (s.closeIf f sKey).2) := by
  rcases closeIf_cases f sKey s with ⟨he, -⟩ | ⟨p, w, -, -, -, he⟩ <;> rw [he]
  · exact h
  · intro fd hfd
    obtain ⟨hk, hne⟩ := epoll_exitConns hfd
    refine (h fd hk).imp_right fun hm => ?_
    obtain ⟨c, hc⟩ := Option.isSome_iff_exists.mp (AList.lookup_isSome.mpr hm)
    exact mem_of_lookup (lookup_exitConns.mpr ⟨hc, hne⟩)

theorem Registered.closeEach (h : Registered m₀ s k) (f : DNSQureyWork → Bool) (keys : List Bytes) :
    Registered m₀ (s.closeEach f keys).1 (k.run (s.closeEach f keys).2) := by
  induction keys generalizing s k with
  | nil => exact h
  | cons sKey keys ih =>
    have hnext := ih (h.closeIf f sKey)
    rw [← Kernel.run_append] at hnext
    exact hnext

end Registered

theorem registered_step {m₀ : Map Fd Bool} {s : Sys} {log : List (Op Fd)}
    (ho : Owned s.server s.kernel log) (h : Registered m₀ s.server s.kernel) {e : Event}
    (hl : LawfulStep g s e) : Registered m₀ (step g e s).1.server (step g e s).1.kernel := by
  cases e with
  | listenRead r now conn outs =>
    show Registered m₀ (s.server.onListenRead g r now conn outs).1
      (s.kernel.run (s.server.onListenRead g r now conn outs).2)
    rcases onListenRead_cases ho hl with ⟨-, he⟩ | ⟨-, p, -, he⟩ | ⟨-, -, hli, he⟩ <;> rw [he]
    · exact h
    · exact h.workEvent _ _ _ _
    · rw [Kernel.run_append]
      exact (h.withWork ho hli).workEvent _ _ _ _
  | listenWrite outs =>
    refine h.run (fun fd hx => ?_) rfl
    rcases mem_onListenWrite hx with ⟨ra, d, -, hx⟩ | ⟨b, hx⟩ <;> cases hx
  | upstreamError fd => exact h.session _ _ _ _
  | upstreamRead fd d o => exact h.session _ _ _ _
  | upstreamWrite fd outs => exact h.session _ _ _ _
  | closeIdle => exact h.closeEach (·.isIdle) _
  | clearTimeout now => exact h.closeEach _ _
  | exitAndClear => exact h.closeEach (fun _ => true) _

theorem registered_run {fdListen : Fd} {tr : List (Entry Sys Event (List Effect))} {s : Sys}
    (h : Run (step g) (LawfulStep g) (Sys.start fdListen kernel) tr s) :
    Registered kernel.epoll s.server s.kernel := by
  induction h with
  | start => exact fun fd hfd => Or.inl hfd
  | next e hrun hok ih => exact registered_step (owned_run hrun) ih hok

/-- **No stale event in a batch.** `main` has put only its own descriptors into the epoll set, and the
kernel hands out no descriptor that is open. Then in every reachable state, for every array of ready
descriptors and every entry of it that is not for a descriptor of `main`, when the entries before it have
been handled `ConnectionManager` still has the connection that it had for the descriptor when `epoll_wait`
returned. The work of the connection is still stored, under the same key, and the descriptor is still the
socket of the connection. -/
theorem no_stale_event (hmain : ∀ fd ∈ kernel.epoll, m.Has fd)
    {tr : List (Entry Sys Event (List Effect))} {s : Sys}
    (h : Run (step g) (LawfulStep g) (Sys.start m.fdListenServer kernel) tr s)
    {ready before later : List Ready} {e : Ready} (hready : ready = before ++ e :: later)
    (hin : ∀ x ∈ ready, x.fd ∈ s.kernel.epoll) (hup : ¬ m.Has e.fd) {es : List Event}
    (hes : m.batch before = some es) (hl : Allowed (step g) (LawfulStep g) es s) :
    ∃ c sKey, s.server.spConnectionManager.lookup e.fd = some c ∧
      s.server.spWorkManager.lookup sKey = some c.work ∧
      (after (step g) es s).server.spConnectionManager.lookup e.fd = some c ∧
      (after (step g) es s).server.spWorkManager.lookup sKey = some c.work ∧
      HasSocket (after (step g) es s).server c e.fd := by
  have ho := owned_run h
  have hfd : e.fd ∈ s.kernel.epoll := by
    refine hin e ?_
    rw [hready]
    exact List.mem_append_right _ List.mem_cons_self
  have hm : e.fd ∈ s.server.spConnectionManager :=
    (registered_run h e.fd hfd).resolve_left fun hk => hup (hmain _ hk)
  obtain ⟨c, hc⟩ := Option.isSome_iff_exists.mp (AList.lookup_isSome.mpr hm)
  obtain ⟨w, hw, -⟩ := (ho.entries _ c).mp hc
  have hp := (ho.stored w.sKey c.work).mpr ⟨w, hw, rfl⟩
  obtain ⟨hkept, log', hown⟩ := kept_after ho hl (not_closes_of_batch hes)
  have hc' := hkept.conns _ c hc
  exact ⟨c, w.sKey, hc, hp, hc', hkept.works _ _ hp, (hown.entries _ c).mp hc'⟩

/-- The kernel when the main loop starts, with the listening socket and the exit event in its epoll
set. -/
def kernelMain : Kernel := { kernel0 with epoll := ((∅ : Map Fd Bool).insert 3 false).insert 4 false }

/-- The first client's query. -/
def firstClient : List Event :=
  [.listenRead (datagram (Work.Steps.query 5 [97] 1)) 0 (fun _ => .connected 5) fun _ => .sent]

/-- The query of a second client, and after it in the array the upstream of the first. -/
def secondClient : List Ready :=
  [{ fd := 3, pollIn := true, arrivals := [⟨⟨.inet 0x0A000003 5354, none, Work.Steps.query 6 [97] 1⟩, 1,
      fun _ => .connected 6, fun _ => .sent⟩] },
    { fd := 5, pollIn := true, sDNSData := Work.Steps.emptyReply 5 [97] 1 }]

/-- Where `epoll_wait` returns that array. -/
def afterFirst : Sys := (exec (step oneZone) firstClient [] (Sys.start 3 kernelMain)).2

theorem no_stale_event_secondClient : ∃ c sKey es, MainFds.batch ⟨3, 4, []⟩ (secondClient.take 1) = some es ∧
    afterFirst.server.spConnectionManager.lookup 5 = some c ∧
    (after (step oneZone) es afterFirst).server.spConnectionManager.lookup 5 = some c ∧
    (after (step oneZone) es afterFirst).server.spWorkManager.lookup sKey = some c.work := by
  have hrun : Run (step oneZone) (LawfulStep oneZone) (Sys.start 3 kernelMain) _ afterFirst :=
    Run.start.exec (by decide +kernel)
  have hmain : ∀ fd ∈ kernelMain.epoll, MainFds.Has ⟨3, 4, []⟩ fd := by
    intro fd hfd
    rcases (AList.mem_insert _).mp hfd with rfl | hfd
    · exact Or.inr (Or.inl rfl)
    · rcases (AList.mem_insert _).mp hfd with rfl | hfd
      · exact Or.inl rfl
      · exact absurd hfd (AList.notMem_empty fd)
  have hin : ∀ x ∈ secondClient, x.fd ∈ afterFirst.kernel.epoll := by
    rintro x hx
    rcases List.mem_pair.mp hx with rfl | rfl
    · decide +kernel
    · decide +kernel
  obtain ⟨c, sKey, hc, -, hc', hp, -⟩ := no_stale_event hmain hrun
    (show secondClient = secondClient.take 1 ++ secondClient[1] :: [] from rfl) hin (by decide +kernel) rfl
    (by decide +kernel)
  exact ⟨c, sKey, _, rfl, hc, hc', hp⟩

end DnsMultiZone.MainLoop.Batch
