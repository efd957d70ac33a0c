import DnsMultiZone.MainLoop.Process
import DnsMultiZone.MainLoop.SendQueue

/-! # What the main loop listens to

The descriptors of `main` were open before the server ran, so no socket of an upstream is one of them: they
are not closed, and nothing takes them out of the epoll set. An event of an upstream is never one of theirs
(`Apart`), since the main loop looks for its own descriptors first. -/

namespace DnsMultiZone.MainLoop.Listening

open DnsMultiZone.Lib.BigEndian DnsMultiZone.Lib.Assoc DnsMultiZone.Lib.Runs DnsMultiZone.Lib.Handles
open DnsMultiZone.Config.ConfigType DnsMultiZone.Config.Init
open DnsMultiZone.Work.Connect DnsMultiZone.Work.Steps
open DnsMultiZone.Work.Query hiding Event step
open DnsMultiZone.MainLoop.Descriptors DnsMultiZone.MainLoop.Dispatch DnsMultiZone.MainLoop.Ownership
open DnsMultiZone.MainLoop.Works DnsMultiZone.MainLoop.Batch DnsMultiZone.MainLoop.Process
open DnsMultiZone.MainLoop.SendQueue (Armed listenSender effect perform_effect)

/-! ### Effects on other descriptors -/

/-- The effect leaves the descriptor in the epoll set as it is. -/
def Spares (fd : Fd) : Effect → Prop
  | .close fd' | .epollMod fd' _ | .epollDel fd' => fd ≠ fd'
  | _ => True

section Spares
variable {k : Kernel} {fd : Fd} {e : Effect} {es : List Effect} {pollOut : Bool}

theorem lookup_apply (h : k.epoll.lookup fd = some pollOut) (hs : Spares fd e) :
    (k.apply e).epoll.lookup fd = some pollOut := by
  cases e with
  | close fd' => exact (AList.lookup_erase_ne hs).trans h
  | epollDel fd' => exact (AList.lookup_erase_ne hs).trans h
  | epollMod fd' b =>
    rw [Kernel.apply]
    split_ifs
    · exact (AList.lookup_insert_ne hs).trans h
    · exact h
  | epollAdd fd' =>
    rw [Kernel.apply]
    split_ifs with hn
    · have hne : fd ≠ fd' := fun he => hn.2 (he ▸ mem_of_lookup h)
      exact (AList.lookup_insert_ne hne).trans h
    · exact h
  | _ => exact h

theorem lookup_run (h : k.epoll.lookup fd = some pollOut) (hs : ∀ e ∈ es, Spares fd e) :
    (k.run es).epoll.lookup fd = some pollOut := by
  induction es generalizing k with
  | nil => exact h
  | cons e es ih =>
    obtain ⟨he, hes⟩ := List.forall_mem_cons.mp hs
    exact ih (lookup_apply h he) hes

theorem armed_spared {α : Type} {queue : List α} (h : Armed k fd queue) (hs : ∀ e ∈ es, Spares fd e) :
    Armed (k.run es) fd queue := by
  obtain ⟨b, hb, hq⟩ := h
  exact ⟨b, lookup_run hb hs, hq⟩

end Spares

/-! ### Works -/

section Works
variable {s : Server} {k : Kernel} {log : List (Op Fd)} {zones : Zones} {fd : Fd}

/-- A work has nothing to do with a descriptor that is not filed. -/
theorem spares_calls (ho : Owned s k log) (hfd : fd ∉ s.spConnectionManager) {p : WorkPtr}
    {w : DNSQureyWork} (hw : s.heap.lookup p = some w) {e : Work.Query.Event} {c : Call} {x : Effect}
    (hc : c ∈ (Work.Query.step zones e w).2) (hx : effect c = some x) : Spares fd x := by
  have hsocket : ∀ (i : ℕ) (c : DNSConnect) (fd' : Fd), w.vsDNSConnects[i]? = some c →
      c.fdSock = some fd' → fd ≠ fd' := by
    rintro i c fd' hc hs rfl
    exact hfd (ho.mem_of_hasSocket (c := ⟨p, i⟩) ⟨w, hw, socketAt_eq_some.mpr ⟨c, hc, hs⟩⟩)
  by_cases hr : ∃ i d, e = .read i d
  · obtain ⟨i, d, rfl⟩ := hr
    obtain ⟨wi, -, -, -, ⟨out, -, rfl⟩ | ⟨-, rfl⟩⟩ := mem_calls_read.mp hc
    · exact nomatch hx
    · exact nomatch hx
  · obtain ⟨i, c', fd', hc', hs, ⟨d, rfl, -⟩ | ⟨b, rfl⟩ | ⟨rfl, -⟩⟩ :=
      mem_calls_step hc fun i d hd => hr ⟨i, d, hd⟩
    · cases hx
      trivial
    · cases hx
      exact hsocket i c' fd' hc' hs
    · cases hx
      exact hsocket i c' fd' hc' hs

theorem armed_performAll {o : SendOutcome} {cs : List Call} (hcs : ∀ c ∈ cs, ∀ x, effect c = some x → Spares fd x)
    (hs : s.fdListen = fd) (h : Armed k fd s.lsSendQueue) :
    Armed (k.run (s.performAll o cs).2) fd (s.performAll o cs).1.lsSendQueue := by
  induction cs generalizing s k with
  | nil => exact h
  | cons c cs ih =>
    obtain ⟨hc, hrest⟩ := List.forall_mem_cons.mp hcs
    have hone : Armed (k.run (s.perform o c).2) fd (s.perform o c).1.lsSendQueue := by
      rcases hx : effect c with _ | x
      · cases c with
        | sendTo ra d => exact (listenSender fd).armed_step (.submit (ra, d) o) ⟨s, hs⟩ h
        | workClose sKey => exact h
        | _ => exact nomatch hx
      · rw [perform_effect hx]
        exact armed_spared h (List.forall_mem_singleton.mpr (hc x hx))
    obtain ⟨queue, idle, hserver⟩ := perform_server o c s
    have hfd : (s.perform o c).1.fdListen = fd := by rw [hserver]; exact hs
    show Armed (k.run ((s.perform o c).2 ++ ((s.perform o c).1.performAll o cs).2)) fd _
    rw [Kernel.run_append]
    exact ih hrest hfd hone

theorem armed_workEvent (ho : Owned s k log) (hs : s.fdListen = fd) (hfd : fd ∉ s.spConnectionManager)
    (o : SendOutcome) (p : WorkPtr) (e : Work.Query.Event) (h : Armed k fd s.lsSendQueue) :
    Armed (k.run (s.workEvent zones o p e).2) fd (s.workEvent zones o p e).1.lsSendQueue := by
  unfold Server.workEvent
  rcases hw : s.heap.lookup p with _ | w
  · exact h
  · exact armed_performAll (fun c hc x hx => spares_calls ho hfd hw hc hx) hs h

theorem epollDel_notMem_workEvent (ho : Owned s k log) (hfd : fd ∉ s.spConnectionManager)
    (o : SendOutcome) (p : WorkPtr) (e : Work.Query.Event) : .epollDel fd ∉ (s.workEvent zones o p e).2 := by
  intro h
  obtain ⟨w, c, hw, hc, hp⟩ := mem_workEvent h
  cases hp
  exact spares_calls (x := .epollDel fd) ho hfd hw hc rfl rfl

theorem close_of_epollDel {f : DNSQureyWork → Bool} {keys : List Bytes}
    (h : .epollDel fd ∈ (s.closeEach f keys).2) : .close fd ∈ (s.closeEach f keys).2 := by
  have hconns : ∀ {cs : List DNSConnect} {m : Map Fd ConnPtr}, .epollDel fd ∈ (exitConns cs m).2 →
      .close fd ∈ (exitConns cs m).2 := by
    intro cs
    induction cs with
    | nil =>
      intro m h
      cases h
    | cons c cs ih =>
      intro m h
      unfold exitConns at h ⊢
      rcases hs : c.fdSock with _ | fd' <;> simp only [hs] at h ⊢
      · exact ih h
      · rcases List.mem_cons.mp h with he | h
        · cases he
          exact List.mem_cons_of_mem _ List.mem_cons_self
        · rcases List.mem_cons.mp h with he | h
          · cases he
          · exact List.mem_cons_of_mem _ (List.mem_cons_of_mem _ (ih h))
  induction keys generalizing s with
  | nil => cases h
  | cons sKey keys ih =>
    rcases List.mem_append.mp h with h | h
    · refine List.mem_append_left _ ?_
      rcases closeIf_cases f sKey s with ⟨he, -⟩ | ⟨p, w, -, -, -, he⟩ <;> rw [he] at h ⊢
      · cases h
      · exact hconns h
    · exact List.mem_append_right _ (ih h)

end Works

/-! ### One event -/

/-- The event is not one of an upstream on a descriptor of `main`. -/
def Apart (m : MainFds) : Event → Prop
  | .upstreamError fd | .upstreamRead fd _ _ | .upstreamWrite fd _ => ¬ m.Has fd
  | _ => True

section Step
variable {g : Setup} {m : MainFds} {s : Sys} {log : List (Op Fd)} {e : Event} {fd : Fd}

theorem epollDel_notMem_step (ho : Owned s.server s.kernel log) (hl : LawfulStep g s e) (ha : Apart m e)
    (hm : m.Has fd) (hfd : fd ∉ s.server.spConnectionManager)
    (hfd' : fd ∉ (step g e s).1.server.spConnectionManager) (hc : .close fd ∉ (step g e s).2) :
    .epollDel fd ∉ (step g e s).2 := by
  have hsession : ∀ o fd' (e' : ℕ → Work.Query.Event), ¬ m.Has fd' →
      .epollDel fd ∉ (s.server.session g.zones o fd' e').2 := by
    intro o fd' e' hne h
    rcases session_cases g.zones o fd' e' s.server with ⟨-, he⟩ | ⟨c, -, he⟩ <;> rw [he] at h
    · cases List.mem_singleton.mp h
      exact hne hm
    · exact epollDel_notMem_workEvent ho hfd o _ _ h
  cases e with
  | listenRead r now conn outs =>
    have hread : (step g (.listenRead r now conn outs) s) =
        (⟨(s.server.onListenRead g r now conn outs).1,
          s.kernel.run (s.server.onListenRead g r now conn outs).2⟩,
          (s.server.onListenRead g r now conn outs).2) := rfl
    rw [hread] at hfd' ⊢
    rcases onListenRead_cases ho hl with ⟨-, he⟩ | ⟨-, p, -, he⟩ | ⟨-, hkey, hli, he⟩ <;> rw [he] at hfd' ⊢
    · exact List.not_mem_nil
    · exact epollDel_notMem_workEvent ho hfd .sent p _
    · intro h
      rcases List.mem_append.mp h with h | h
      · obtain ⟨fd', he | he | he⟩ := mem_initLoop h
        all_goals cases he
      · rw [(managers_workEvent _ _ _ _ _).1] at hfd'
        exact epollDel_notMem_workEvent (ho.withWork hkey hli) hfd' .sent _ _ h
  | listenWrite outs =>
    intro h
    rcases mem_onListenWrite h with ⟨ra, d, -, h⟩ | ⟨b, h⟩
    · cases h
    · cases h
  | upstreamError fd' => exact hsession _ _ _ ha
  | upstreamRead fd' d o => exact hsession _ _ _ ha
  | upstreamWrite fd' outs => exact hsession _ _ _ ha
  | closeIdle => exact fun h => hc (close_of_epollDel h)
  | clearTimeout now => exact fun h => hc (close_of_epollDel h)
  | exitAndClear => exact fun h => hc (close_of_epollDel h)

/-- **The listening socket** has `EPOLLOUT` exactly while answers wait. -/
theorem armed_step (ho : Owned s.server s.kernel log) (hl : LawfulStep g s e) (ha : Apart m e)
    (hm : m.Has fd) (hfd : fd ∉ s.server.spConnectionManager)
    (hfd' : fd ∉ (step g e s).1.server.spConnectionManager) (hc : .close fd ∉ (step g e s).2)
    (hs : s.server.fdListen = fd) (h : Armed s.kernel fd s.server.lsSendQueue) :
    Armed (step g e s).1.kernel fd (step g e s).1.server.lsSendQueue := by
  have hdel := epollDel_notMem_step ho hl ha hm hfd hfd' hc
  have hclose : ∀ f keys, .close fd ∉ (s.server.closeEach f keys).2 →
      .epollDel fd ∉ (s.server.closeEach f keys).2 →
      Armed (s.kernel.run (s.server.closeEach f keys).2) fd (s.server.closeEach f keys).1.lsSendQueue := by
    intro f keys hc hd
    obtain ⟨conns, works, heap, he⟩ := server_closeEach f keys s.server
    rw [he]
    refine armed_spared h fun x hx => ?_
    obtain ⟨fd', rfl | rfl⟩ := mem_closeEach hx
    · rintro rfl
      exact hd hx
    · rintro rfl
      exact hc hx
  have hsession : ∀ o fd' (e' : ℕ → Work.Query.Event), ¬ m.Has fd' →
      Armed (s.kernel.run (s.server.session g.zones o fd' e').2) fd
        (s.server.session g.zones o fd' e').1.lsSendQueue := by
    intro o fd' e' hne
    rcases session_cases g.zones o fd' e' s.server with ⟨-, he⟩ | ⟨c, -, he⟩ <;> rw [he]
    · refine armed_spared h (List.forall_mem_singleton.mpr ?_)
      rintro rfl
      exact hne hm
    · exact armed_workEvent ho hs hfd o _ _ h
  cases e with
  | listenRead r now conn outs =>
    have hread : (step g (.listenRead r now conn outs) s) =
        (⟨(s.server.onListenRead g r now conn outs).1,
          s.kernel.run (s.server.onListenRead g r now conn outs).2⟩,
          (s.server.onListenRead g r now conn outs).2) := rfl
    rw [hread] at hfd' hc ⊢
    rcases onListenRead_cases ho hl with ⟨-, he⟩ | ⟨-, p, -, he⟩ | ⟨-, hkey, hli, he⟩ <;>
      rw [he] at hfd' hc ⊢
    · exact h
    · exact armed_workEvent ho hs hfd .sent p _ h
    · rw [(managers_workEvent _ _ _ _ _).1] at hfd'
      rw [Kernel.run_append]
      refine armed_workEvent (ho.withWork hkey hli) hs hfd' .sent _ _ (armed_spared h fun x hx => ?_)
      obtain ⟨fd', rfl | rfl | rfl⟩ := mem_initLoop hx
      · trivial
      · rintro rfl
        exact hc (List.mem_append_left _ hx)
      · trivial
  | listenWrite outs => exact (listenSender fd).armed_step (.flush outs) ⟨s.server, hs⟩ h
  | upstreamError fd' => exact hsession _ _ _ ha
  | upstreamRead fd' d o => exact hsession _ _ _ ha
  | upstreamWrite fd' outs => exact hsession _ _ _ ha
  | closeIdle => exact hclose _ _ hc hdel
  | clearTimeout now => exact hclose _ _ hc hdel
  | exitAndClear => exact hclose _ _ hc hdel

end Step

/-! ### Runs -/

section Run
variable {g : Setup} {m : MainFds} {kernel : Kernel} {tr : List (Entry Sys Event (List Effect))} {s : Sys}

theorem run_lawful {fdListen : Fd} (h : Run (step g) (LawfulStep g) (Sys.start fdListen kernel) tr s) :
    Lawful kernel (effects tr) ∧ s.kernel = kernel.run (effects tr) := by
  induction h with
  | start => exact ⟨trivial, rfl⟩
  | next e h hok ih =>
    obtain ⟨hl, hk⟩ := ih
    rw [effects, Kernel.run_append, lawful_append, ← hk]
    exact ⟨⟨hl, hok⟩, rfl⟩

/-- What was open before the server ran stays so, and is not filed. -/
theorem open_before {fdListen fd : Fd} (h : Run (step g) (LawfulStep g) (Sys.start fdListen kernel) tr s)
    (hfd : fd ∈ kernel.opened) :
    fd ∈ s.kernel.opened ∧ fd ∉ s.server.spConnectionManager ∧ .close fd ∉ effects tr := by
  obtain ⟨hl, hk⟩ := run_lawful h
  have hb := (owned_run h).held.balanced
  have hall : Balanced {fd | fd ∈ s.server.spConnectionManager} (aboutAll (fun _ => True) (ops (effects tr))) := by
    rw [aboutAll, List.filter_eq_self.mpr fun _ _ => decide_eq_true trivial]
    exact hb
  have hnone := about_opened hl (hb.first fd) hfd
  refine ⟨?_, fun hm => ?_, fun hc => ?_⟩
  · rw [hk]
    exact (mem_opened_iff hl hall trivial).mpr (.inl hfd)
  · obtain ⟨n, hn⟩ := hb.open_of_mem fd hm
    rw [hn] at hnone
    exact absurd hnone (by simp)
  · have hop : Op.release fd ∈ about fd (ops (effects tr)) :=
      List.mem_filter.mpr ⟨List.mem_filterMap.mpr ⟨_, hc, rfl⟩, decide_eq_true rfl⟩
    rw [hnone] at hop
    exact absurd hop List.not_mem_nil

theorem fdListen_step {log : List (Op Fd)} (ho : Owned s.server s.kernel log) {e : Event}
    (hl : LawfulStep g s e) : (step g e s).1.server.fdListen = s.server.fdListen := by
  have hwork : ∀ o p e' (s : Server), (s.workEvent g.zones o p e').1.fdListen = s.fdListen := by
    intro o p e' s
    obtain ⟨heap, queue, idle, he⟩ := server_workEvent g.zones o p e' s
    rw [he]
  have hclose : ∀ f keys, (s.server.closeEach f keys).1.fdListen = s.server.fdListen := by
    intro f keys
    obtain ⟨conns, works, heap, he⟩ := server_closeEach f keys s.server
    rw [he]
  by_cases hc : Closes e
  · cases e with
    | closeIdle => exact hclose _ _
    | clearTimeout now => exact hclose _ _
    | exitAndClear => exact hclose _ _
    | _ => exact hc.elim
  · rcases server_step ho hl hc with ⟨queue, hs⟩ | ⟨o, p, e', -, hs⟩ |
      ⟨r, now, conn, outs, -, -, ⟨p, -, hs⟩ | ⟨-, -, hs⟩⟩ <;> rw [hs]
    · exact hwork _ _ _ _
    · exact hwork _ _ _ _
    · exact hwork _ _ _ _

/-- **In every run** the descriptors of `main` are open and in the epoll set. -/
theorem listens_run (h : Run (step g) (fun s e => LawfulStep g s e ∧ Apart m e)
    (Sys.start m.fdListenServer kernel) tr s) (hopen : ∀ fd, m.Has fd → fd ∈ kernel.opened)
    (hin : ∀ fd, m.Has fd → fd ∈ kernel.epoll)
    (harmed : kernel.epoll.lookup m.fdListenServer = some false) :
    s.server.fdListen = m.fdListenServer ∧ (∀ fd, m.Has fd → s.kernel.Listens fd) ∧
      Armed s.kernel m.fdListenServer s.server.lsSendQueue := by
  induction h with
  | start => exact ⟨rfl, fun fd hm => ⟨hopen fd hm, hin fd hm⟩, false, harmed, by simp [Sys.start]⟩
  | @next tr s e h hok ih =>
    obtain ⟨hs, hlistens, ha⟩ := ih
    have hrun := h.mono fun _ _ hok => hok.1
    have hnext := Run.next e hrun hok.1
    have ho := owned_run hrun
    have hclose : ∀ fd, m.Has fd → .close fd ∉ (step g e s).2 := fun fd hm hc =>
      (open_before hnext (hopen fd hm)).2.2 (List.mem_append_right _ hc)
    have hconn := fun fd hm => (open_before hrun (hopen fd hm)).2.1
    have hconn' := fun fd hm => (open_before hnext (hopen fd hm)).2.1
    refine ⟨(fdListen_step ho hok.1).trans hs, fun fd hm => (hlistens fd hm).run ?_ (hclose fd hm), ?_⟩
    · exact epollDel_notMem_step ho hok.1 hok.2 hm (hconn fd hm) (hconn' fd hm) (hclose fd hm)
    · have hm : m.Has m.fdListenServer := .inl rfl
      exact armed_step ho hok.1 hok.2 hm (hconn _ hm) (hconn' _ hm) (hclose _ hm) hs ha

end Run

/-! ### The main loop of the program -/

theorem apart_dispatch {m : MainFds} {e : Ready} {es : List Event} (h : m.dispatch e = some es) :
    ∀ x ∈ es, Apart m x := by
  have hlisten : ∀ x ∈ listenReads e.arrivals, Apart m x := by
    intro x hx
    obtain ⟨a, -, rfl⟩ := List.mem_map.mp hx
    trivial
  have hnone : ∀ x ∈ ([] : List Event), Apart m x := fun x hx => absurd hx List.not_mem_nil
  unfold MainFds.dispatch at h
  by_cases hl : e.fd = m.fdListenServer
  · rw [if_pos hl] at h
    split_ifs at h <;> cases h
    · exact List.forall_mem_append.mpr ⟨hlisten, List.forall_mem_singleton.mpr trivial⟩
    · exact List.forall_mem_append.mpr ⟨hlisten, hnone⟩
    · exact List.forall_mem_singleton.mpr trivial
    · exact hnone
  rw [if_neg hl] at h
  by_cases hx : e.fd = m.fdExitEvent
  · rw [if_pos hx] at h
    cases h
  rw [if_neg hx] at h
  by_cases hn : e.fd ∈ m.fdsNotify
  · rw [if_pos hn] at h
    split_ifs at h
    cases h
    exact hnone
  rw [if_neg hn] at h
  have hup : ¬ m.Has e.fd := fun hm => hm.elim hl (Or.rec hx hn)
  split_ifs at h <;> cases h
  · exact List.forall_mem_singleton.mpr hup
  · exact List.forall_mem_singleton.mpr hup
  · exact List.forall_mem_singleton.mpr hup
  · exact hnone

theorem apart_handled (m : MainFds) (ready : List Ready) : ∀ x ∈ (handled m ready).1, Apart m x := by
  induction ready with
  | nil => exact fun x hx => absurd hx List.not_mem_nil
  | cons e ready ih =>
    unfold handled
    rcases h : m.dispatch e with _ | now
    · exact fun x hx => absurd hx List.not_mem_nil
    · exact List.forall_mem_append.mpr ⟨apart_dispatch h, ih⟩

theorem apart_loopEvents (m : MainFds) (rounds : List Round) (llLastClean : ℕ) :
    ∀ x ∈ loopEvents m rounds llLastClean, Apart m x := by
  induction rounds generalizing llLastClean with
  | nil => exact fun x hx => absurd hx List.not_mem_nil
  | cons r rounds ih =>
    unfold loopEvents
    dsimp only
    have hclean : ∀ x ∈ r.cleaning llLastClean, Apart m x := by
      unfold Round.cleaning
      split_ifs
      · exact List.forall_mem_singleton.mpr trivial
      · exact fun x hx => absurd hx List.not_mem_nil
    split_ifs
    · exact apart_handled m r.ready
    all_goals exact List.forall_mem_append.mpr ⟨List.forall_mem_append.mpr ⟨apart_handled m r.ready,
        List.forall_mem_cons.mpr ⟨trivial, hclean⟩⟩, ih _⟩

theorem start_true {b bWatched : Bool} {sFileLog : Bytes} {o : Calls} {m : Main}
    (h : start b sFileLog bWatched o = (m, true)) :
    ∃ fdEPoll fdListen fdExit fdINotify esBack,
      (if b then background sFileLog o.background else ([], true)) = (esBack, true) ∧
      m = ⟨some fdEPoll, some fdListen, some fdExit, some fdINotify,
        [.socket fdEPoll, .socket fdListen, .socket fdExit] ++ esBack ++
          [.socket fdINotify, .epollAdd fdINotify, .epollAdd fdExit, .epollAdd fdListen]⟩ := by
  obtain ⟨_ | fdEPoll, fdListen, bBound, fdExit, oBack, fdINotify⟩ := o
  · cases h
  rcases fdListen with _ | fdListen
  · cases h
  rcases bBound with _ | _
  · cases h
  rcases fdExit with _ | fdExit
  · cases h
  unfold start at h
  dsimp only at h ⊢
  rw [if_neg (by decide)] at h
  generalize (if b then background sFileLog oBack else ([], true)) = back at h ⊢
  obtain ⟨esBack, bBack⟩ := back
  rcases bBack with _ | _
  · cases h
  rcases fdINotify with _ | fdINotify
  · cases h
  rcases bWatched with _ | _
  · cases h
  · refine ⟨fdEPoll, fdListen, fdExit, fdINotify, esBack, rfl, ?_⟩
    rw [← (Prod.mk.inj h).1]
    simp

theorem reopen_keeps {k : Kernel} (hk : k.epoll = ∅) (fd : Fd) :
    k.opened ⊆ (k.run (reopen fd)).opened ∧ (k.run (reopen fd)).epoll = ∅ := by
  refine ⟨fun x hx => ?_, ?_⟩
  · by_cases he : x = fd
    · exact Finset.mem_insert.mpr (.inl he)
    · exact Finset.mem_insert_of_mem (Finset.mem_erase.mpr ⟨he, hx⟩)
  · show k.epoll.erase fd = ∅
    rw [hk]
    rfl

/-- In the background everything is still open, and the epoll set is empty. -/
theorem background_keeps {k : Kernel} {sFileLog : Bytes} {o : Background} {es : List Effect}
    (h : background sFileLog o = (es, true)) (hl : Lawful k es) (hk : k.epoll = ∅) :
    k.opened ⊆ (k.run es).opened ∧ (k.run es).epoll = ∅ := by
  have hstd : ∀ (k' : Kernel) (p : Prop) [Decidable p] (n : Fd), k'.epoll = ∅ →
      k'.opened ⊆ (k'.run (if p then [] else reopen n)).opened ∧
        (k'.run (if p then [] else reopen n)).epoll = ∅ := by
    intro k' p _ n hk'
    split_ifs
    · exact ⟨Finset.Subset.refl _, hk'⟩
    · exact reopen_keeps hk' n
  obtain ⟨bForked, fdNull, bStdout, bStderr⟩ := o
  unfold background at h
  split_ifs at h
  · cases (Prod.mk.inj h).2
  · -- the null device goes to the standard descriptors, and its own is closed if it is none of them
    rcases fdNull with _ | fd
    · cases (Prod.mk.inj h).2
    obtain rfl := (Prod.mk.inj h).1
    have hfresh : fd ∉ k.opened := hl.1
    obtain ⟨h0, hk0⟩ := hstd (k.apply (.socket fd)) (fd = 0) 0 hk
    obtain ⟨h1, hk1⟩ := hstd _ (fd = 1) 1 hk0
    obtain ⟨h2, hk2⟩ := hstd _ (fd = 2) 2 hk1
    have hopen := ((Finset.subset_insert fd k.opened).trans h0).trans (h1.trans h2)
    rw [Kernel.run_append, Kernel.run_append, Kernel.run_append, Kernel.run_cons]
    generalize Kernel.run _ (if fd = 2 then [] else reopen 2) = k' at hopen hk2 ⊢
    by_cases hlarge : 2 < fd
    · rw [if_pos hlarge]
      refine ⟨fun x hx => Finset.mem_erase.mpr ⟨fun he => hfresh (he ▸ hx), hopen hx⟩, ?_⟩
      show AList.erase fd _ = ∅
      rw [hk2]
      rfl
    · rw [if_neg hlarge]
      exact ⟨hopen, hk2⟩
  · cases (Prod.mk.inj h).2
  · cases (Prod.mk.inj h).2
  · obtain rfl := (Prod.mk.inj h).1
    obtain ⟨h1, hk1⟩ := reopen_keeps hk 1
    obtain ⟨h2, hk2⟩ := reopen_keeps hk1 2
    rw [Kernel.run_append]
    exact ⟨h1.trans h2, hk2⟩

theorem lookup_adds {k : Kernel} {fds : List Fd} (hn : fds.Nodup) (ho : ∀ fd ∈ fds, fd ∈ k.opened)
    (he : ∀ fd ∈ fds, fd ∉ k.epoll) (fd : Fd) (b : Bool) :
    (k.run (fds.map .epollAdd)).epoll.lookup fd = some b ↔
      k.epoll.lookup fd = some b ∨ (fd ∈ fds ∧ b = false) := by
  induction fds generalizing k with
  | nil => simp
  | cons fd₀ fds ih =>
    obtain ⟨hnotin, hn⟩ := List.nodup_cons.mp hn
    obtain ⟨ho₀, ho⟩ := List.forall_mem_cons.mp ho
    obtain ⟨he₀, he⟩ := List.forall_mem_cons.mp he
    have hone : k.apply (.epollAdd fd₀) = { k with epoll := k.epoll.insert fd₀ false } := if_pos ⟨ho₀, he₀⟩
    have hrest : ∀ fd ∈ fds, fd ∉ k.epoll.insert fd₀ false := by
      intro fd hfd hm
      rcases (AList.mem_insert _).mp hm with rfl | hm
      · exact hnotin hfd
      · exact he fd hfd hm
    rw [List.map_cons, Kernel.run_cons, hone]
    refine (ih (k := { k with epoll := k.epoll.insert fd₀ false }) hn ho hrest).trans ?_
    rw [lookup_insert_iff he₀, List.mem_cons]
    tauto

/-- What the epoll set holds when the main loop starts. -/
theorem epoll_start {b bWatched : Bool} {sFileLog : Bytes} {o : Calls} {m : Main} {fds : MainFds} {k : Kernel}
    (h : start b sFileLog bWatched o = (m, true)) (hfds : m.fds = some fds) (hk : k.epoll = ∅)
    (hl : Lawful k m.effects) :
    (∀ fd, fds.Has fd → fd ∈ (k.run m.effects).opened) ∧
      ∀ fd b, (k.run m.effects).epoll.lookup fd = some b ↔ fds.Has fd ∧ b = false := by
  obtain ⟨fdEPoll, fdListen, fdExit, fdINotify, esBack, hback, rfl⟩ := start_true h
  obtain rfl := Option.some.inj hfds
  have hhas : ∀ fd, MainFds.Has ⟨fdListen, fdExit, [fdINotify]⟩ fd ↔ fd ∈ [fdINotify, fdExit, fdListen] := by
    intro fd
    simp only [MainFds.Has, List.mem_cons, List.not_mem_nil, or_false]
    tauto
  obtain ⟨hbefore, hafter⟩ := lawful_append.mp hl
  obtain ⟨hthree, hlback⟩ := lawful_append.mp hbefore
  obtain ⟨-, -, hexit, -⟩ := hthree
  have hfresh : fdExit ≠ fdListen := by
    rintro rfl
    exact hexit (Finset.mem_insert_self _ _)
  -- the two sockets are still open behind `daemon`, so the descriptor of inotify is a third one
  obtain ⟨k₁, hk₁⟩ : ∃ k₁, k.run [.socket fdEPoll, .socket fdListen, .socket fdExit] = k₁ := ⟨_, rfl⟩
  have hempty : k₁.epoll = ∅ := by
    rw [← hk₁]
    exact hk
  have hold : ∀ fd ∈ [fdExit, fdListen], fd ∈ k₁.opened := by
    rw [← hk₁]
    simp [Kernel.apply]
  have hkeeps : k₁.opened ⊆ (k₁.run esBack).opened ∧ (k₁.run esBack).epoll = ∅ := by
    rcases b with _ | _
    · obtain rfl := (Prod.mk.inj hback).1
      exact ⟨Finset.Subset.refl _, hempty⟩
    · exact background_keeps hback (hk₁ ▸ hlback) hempty
  rw [Kernel.run_append, hk₁] at hafter
  obtain ⟨k₂, hk₂⟩ : ∃ k₂, (k₁.run esBack).apply (.socket fdINotify) = k₂ := ⟨_, rfl⟩
  have hempty₂ : k₂.epoll = ∅ := by
    rw [← hk₂]
    exact hkeeps.2
  have hopen : ∀ fd ∈ [fdINotify, fdExit, fdListen], fd ∈ k₂.opened := by
    rw [← hk₂]
    exact List.forall_mem_cons.mpr ⟨Finset.mem_insert_self _ _,
      fun fd hfd => Finset.mem_insert_of_mem (hkeeps.1 (hold fd hfd))⟩
  have hnodup : [fdINotify, fdExit, fdListen].Nodup := by
    refine List.nodup_cons.mpr ⟨fun hm => hafter.1 (hkeeps.1 (hold _ hm)), List.nodup_cons.mpr ⟨?_, ?_⟩⟩
    · exact fun hm => hfresh (List.mem_singleton.mp hm)
    · exact List.nodup_singleton _
  have hrun : k.run ([.socket fdEPoll, .socket fdListen, .socket fdExit] ++ esBack ++
      [.socket fdINotify, .epollAdd fdINotify, .epollAdd fdExit, .epollAdd fdListen]) =
        k₂.run ([fdINotify, fdExit, fdListen].map .epollAdd) := by
    rw [Kernel.run_append, Kernel.run_append, hk₁, ← hk₂]
    rfl
  have hadds := lookup_adds hnodup hopen fun fd _ hfd => AList.notMem_empty fd (hempty₂ ▸ hfd)
  have hquiet : Quiet ([fdINotify, fdExit, fdListen].map .epollAdd) := by simp [Quiet, Effect.op]
  refine ⟨fun fd hfd => ?_, fun fd b => ?_⟩
  · refine hrun ▸ ?_
    rw [hquiet.opened]
    exact hopen fd ((hhas fd).mp hfd)
  · refine Eq.to_iff (congrArg (fun k : Kernel => k.epoll.lookup fd = some b) hrun) |>.trans ?_
    rw [hadds, hempty₂, hhas]
    exact or_iff_right fun h => by cases h

theorem allowed_apart {g : Setup} {m : MainFds} {es : List Event} {s : Sys}
    (h : Allowed (step g) (LawfulStep g) es s) (ha : ∀ x ∈ es, Apart m x) :
    Allowed (step g) (fun s e => LawfulStep g s e ∧ Apart m e) es s := by
  induction es generalizing s with
  | nil => trivial
  | cons e es ih =>
    obtain ⟨he, hes⟩ := List.forall_mem_cons.mp ha
    exact ⟨⟨h.1, he⟩, ih h.2 hes⟩

/-- **What the main loop listens to**, at any point of it: its own three descriptors, the listening socket
with `EPOLLOUT` exactly while answers wait, and sockets of upstreams that are filed. -/
theorem main_listens (w : World) (c : GConfig) (rounds : List Round) (k : Kernel) (hk : k.epoll = ∅)
    (m : Main) (fds : MainFds) (hstart : w.start c = (m, true)) (hfds : m.fds = some fds)
    (es later : List Event) (hes : loopEvents fds rounds 0 = es ++ later)
    (hl : Lawful k (m.effects ++ (serve (w.setup c) es { fdListen := fds.fdListenServer }).2)) :
    let s := (serve (w.setup c) es { fdListen := fds.fdListenServer }).1
    let k' := k.run (m.effects ++ (serve (w.setup c) es { fdListen := fds.fdListenServer }).2)
    (∀ fd, fds.Has fd → k'.Listens fd) ∧ Armed k' fds.fdListenServer s.lsSendQueue ∧
      ∀ fd ∈ k'.epoll, fds.Has fd ∨ ∃ conn, s.spConnectionManager.lookup fd = some conn ∧
        HasSocket s conn fd := by
  obtain ⟨hfirst, hserve⟩ := lawful_append.mp hl
  obtain ⟨hopen, hlook⟩ := epoll_start hstart hfds hk hfirst
  have hapart : ∀ x ∈ es, Apart fds x := fun x hx => by
    refine apart_loopEvents fds rounds 0 x ?_
    rw [hes]
    exact List.mem_append_left _ hx
  have hstart : Run (step (w.setup c)) (fun s e => LawfulStep (w.setup c) s e ∧ Apart fds e)
      (Sys.start fds.fdListenServer (k.run m.effects)) [] _ := Run.start
  have hrun := hstart.exec (allowed_apart (allowed_serve.mpr hserve) hapart)
  have hin : ∀ fd, fds.Has fd → fd ∈ (k.run m.effects).epoll := fun fd hfd =>
    mem_of_lookup ((hlook fd false).mpr ⟨hfd, rfl⟩)
  have hlisten := listens_run hrun hopen hin ((hlook _ false).mpr ⟨.inl rfl, rfl⟩)
  have hlawful := hrun.mono fun _ _ hok => hok.1
  have hreg := registered_run hlawful
  have hown := owned_run hlawful
  have hend : (exec (step (w.setup c)) es [] (Sys.start fds.fdListenServer (k.run m.effects))).2 = _ :=
    (exec_serve es [] _ _).1
  rw [hend] at hlisten hreg hown
  rw [Kernel.run_append]
  refine ⟨hlisten.2.1, hlisten.2.2, fun fd hfd => ?_⟩
  refine (hreg fd hfd).imp (fun hm => ?_) fun hm => ?_
  · obtain ⟨b, hb⟩ := Option.isSome_iff_exists.mp (AList.lookup_isSome.mpr hm)
    exact ((hlook fd b).mp hb).1
  · obtain ⟨conn, hconn⟩ := Option.isSome_iff_exists.mp (AList.lookup_isSome.mpr hm)
    exact ⟨conn, hconn, (hown.entries fd conn).mp hconn⟩

/-- Two queries come, and the answer to the first of them cannot be sent yet. -/
def answerWaits : List Round :=
  [⟨[{ fd := 4, pollIn := true, arrivals := [
      ⟨datagram (Work.Steps.query 5 [97] 1), 0, fun _ => .connected 7, fun _ => .sent⟩,
      ⟨datagram (Work.Steps.query 6 [98] 1), 0, fun _ => .connected 7, fun _ => .sent⟩] }], 0, 0⟩,
    ⟨[{ fd := 7, pollIn := true, sDNSData := Work.Steps.emptyReply 5 [97] 1, answer := .wouldBlock }], 1, 1⟩]

/-- The listening socket waits to send, and the socket of the upstream is there for the second query. -/
theorem main_listens_answerWaits :
    let m := (oneQuery.start { vsZoneInfos := [{}] }).1
    let es := loopEvents ⟨4, 5, [6]⟩ answerWaits 0
    let s := (serve (oneQuery.setup { vsZoneInfos := [{}] }) es { fdListen := 4 }).1
    let k := kernelStart.run (m.effects ++ (serve (oneQuery.setup { vsZoneInfos := [{}] }) es { fdListen := 4 }).2)
    (k.Listens 4 ∧ k.Listens 5 ∧ k.Listens 6) ∧
      (s.lsSendQueue.length = 1 ∧ k.epoll.lookup 4 = some true) ∧
      (7 ∈ k.epoll ∧ ∃ conn, s.spConnectionManager.lookup 7 = some conn ∧ HasSocket s conn 7) := by
  obtain ⟨hlistens, ⟨b, hb, hqueue⟩, hfiled⟩ :=
    main_listens oneQuery { vsZoneInfos := [{}] } answerWaits kernelStart rfl _ ⟨4, 5, [6]⟩ rfl rfl
      (loopEvents ⟨4, 5, [6]⟩ answerWaits 0) [] (List.append_nil _).symm (by decide +kernel)
  have hone : (serve (oneQuery.setup { vsZoneInfos := [{}] }) (loopEvents ⟨4, 5, [6]⟩ answerWaits 0)
      { fdListen := 4 }).1.lsSendQueue.length = 1 := by decide +kernel
  refine ⟨⟨hlistens 4 (by decide), hlistens 5 (by decide), hlistens 6 (by decide)⟩, ⟨hone, ?_⟩, ?_⟩
  · exact hb.trans (congrArg some (hqueue.mpr (List.ne_nil_of_length_pos (hone ▸ Nat.one_pos))))
  · have hseven : 7 ∈ (kernelStart.run ((oneQuery.start { vsZoneInfos := [{}] }).1.effects ++
        (serve (oneQuery.setup { vsZoneInfos := [{}] }) (loopEvents ⟨4, 5, [6]⟩ answerWaits 0)
          { fdListen := 4 }).2)).epoll := by decide +kernel
    exact ⟨hseven, (hfiled 7 hseven).resolve_left (by decide)⟩

end DnsMultiZone.MainLoop.Listening
