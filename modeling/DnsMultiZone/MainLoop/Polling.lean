import DnsMultiZone.MainLoop.Listening

/-! # What the main loop waits for

`epoll_wait` is to wake the main loop for `EPOLLOUT` on a socket of an upstream while something is queued
for it: else a queued query would stay queued, and a socket that has nothing to send would keep the main
loop busy. `SendDNSQueryBuffer` and `Write` set it, each for one connection at a time, and every other
event has to leave it.

* `Polled.run`: what effects on a descriptor have to be like for it to stay so.
* `asks_step`: what the calls of a work say about its connections.
* `polled_run`, `main_polls`: every run of the server, and of `main`. -/

namespace DnsMultiZone.MainLoop.Polling

open DnsMultiZone.Lib.BigEndian DnsMultiZone.Lib.Assoc DnsMultiZone.Lib.Runs DnsMultiZone.Lib.Handles
open DnsMultiZone.Config.ConfigType DnsMultiZone.Config.Init
open DnsMultiZone.Work.Connect DnsMultiZone.Work.Steps
open DnsMultiZone.Work.Query hiding Event step
open DnsMultiZone.MainLoop.Descriptors DnsMultiZone.MainLoop.Dispatch DnsMultiZone.MainLoop.Ownership
open DnsMultiZone.MainLoop.Works DnsMultiZone.MainLoop.Batch DnsMultiZone.MainLoop.Process
open DnsMultiZone.MainLoop.Listening

/-! ### One descriptor -/

/-- If the descriptor is listened to at all, it is for `EPOLLOUT` exactly while something is queued. -/
def Polled (k : Kernel) (fd : Fd) (queue : List Bytes) : Prop :=
  ∀ pollOut, k.epoll.lookup fd = some pollOut → (pollOut = true ↔ queue ≠ [])

section Kernel
variable {k : Kernel} {fd : Fd} {es : List Effect} {b : Bool} {q q' : List Bytes}

/-- What a descriptor is listened to for comes from the last `epoll_ctl` on it. -/
theorem lookup_of_run (h : (k.run es).epoll.lookup fd = some b) :
    .epollMod fd b ∈ es ∨ (b = false ∧ .epollAdd fd ∈ es) ∨
      k.epoll.lookup fd = some b ∧ ∀ b', .epollMod fd b' ∉ es := by
  induction es generalizing k with
  | nil => exact Or.inr (Or.inr ⟨h, fun b' => List.not_mem_nil⟩)
  | cons e es ih =>
    rcases ih h with hm | ⟨hb, ha⟩ | ⟨hk, hno⟩
    · exact Or.inl (List.mem_cons_of_mem _ hm)
    · exact Or.inr (Or.inl ⟨hb, List.mem_cons_of_mem _ ha⟩)
    have hkept : k.epoll.lookup fd = some b → (∀ b', e ≠ .epollMod fd b') →
        k.epoll.lookup fd = some b ∧ ∀ b', .epollMod fd b' ∉ e :: es := fun hk he =>
      ⟨hk, fun b' hb' => (List.mem_cons.mp hb').elim (fun h => he b' h.symm) (hno b')⟩
    cases e with
    | socket fd' => exact Or.inr (Or.inr (hkept hk fun b' h => by cases h))
    | send fd' d => exact Or.inr (Or.inr (hkept hk fun b' h => by cases h))
    | sendReply ra d => exact Or.inr (Or.inr (hkept hk fun b' h => by cases h))
    | initFailed sKey => exact Or.inr (Or.inr (hkept hk fun b' h => by cases h))
    | close fd' => exact Or.inr (Or.inr (hkept (lookup_erase_some hk).2 fun b' h => by cases h))
    | epollDel fd' => exact Or.inr (Or.inr (hkept (lookup_erase_some hk).2 fun b' h => by cases h))
    | epollAdd fd' =>
      rw [Kernel.apply] at hk
      split_ifs at hk with hn
      · rcases lookup_insert_cases hk with ⟨rfl, rfl⟩ | ⟨-, hk⟩
        · exact Or.inr (Or.inl ⟨rfl, List.mem_cons_self⟩)
        · exact Or.inr (Or.inr (hkept hk fun b' h => by cases h))
      · exact Or.inr (Or.inr (hkept hk fun b' h => by cases h))
    | epollMod fd' b' =>
      rw [Kernel.apply] at hk
      split_ifs at hk with hn
      · rcases lookup_insert_cases hk with ⟨rfl, rfl⟩ | ⟨hne, hk⟩
        · exact Or.inl List.mem_cons_self
        · exact Or.inr (Or.inr (hkept hk fun b'' h => by cases h; exact hne rfl))
      · refine Or.inr (Or.inr (hkept hk fun b'' h => ?_))
        cases h
        exact hn (mem_of_lookup hk)

/-- **Effects on a descriptor**: what they ask for is what the queue is like afterwards, and if they ask for
nothing the queue is empty if it was. -/
theorem Polled.run (h : Polled k fd q) (hadd : .epollAdd fd ∉ es)
    (hmod : ∀ b, .epollMod fd b ∈ es → (b = true ↔ q' ≠ []))
    (hsame : (∀ b, .epollMod fd b ∉ es) → (q' ≠ [] ↔ q ≠ [])) : Polled (k.run es) fd q' := by
  intro b hb
  rcases lookup_of_run hb with hm | ⟨-, ha⟩ | ⟨hk, hno⟩
  · exact hmod b hm
  · exact absurd ha hadd
  · exact (h b hk).trans (hsame hno).symm

theorem Polled.spared (h : Polled k fd q) (hadd : .epollAdd fd ∉ es) (hno : ∀ b, .epollMod fd b ∉ es) :
    Polled (k.run es) fd q :=
  h.run hadd (fun b hb => absurd hb (hno b)) fun _ => Iff.rfl

end Kernel

/-! ### One work -/

/-- The calls ask for `EPOLLOUT` as they leave the queue of the connection on `fd`. -/
structure Asks (fd : Fd) (q q' : List Bytes) (cs : List Call) : Prop where
  mod : ∀ b, .mod fd b ∈ cs → (b = true ↔ q' ≠ [])
  same : (∀ b, .mod fd b ∉ cs) → (q' ≠ [] ↔ q ≠ [])

theorem Asks.left {fd : Fd} {q : List Bytes} {cs : List Call} (h : ∀ b, .mod fd b ∉ cs) : Asks fd q q cs :=
  ⟨fun b hb => absurd hb (h b), fun _ => Iff.rfl⟩

section Work
variable {c : DNSConnect} {fd : Fd}

theorem asks_askedBy {d : Bytes} {a : Asked} (h : AskedBy d c a) (hf : c.fdSock = some fd) :
    Asks fd c.lsWriteQueue a.conn.lsWriteQueue a.calls := by
  cases h with
  | left s => exact Asks.left fun b => List.not_mem_nil
  | sent o =>
    unfold sendOrError DNSConnect.sendDNSQueryBuffer
    rw [hf]
    dsimp only
    split_ifs with hs hn
    · exact Asks.left fun b hb => by cases List.mem_singleton.mp hb
    · exact Asks.left fun b => List.not_mem_nil
    · dsimp only [DNSConnect.updateEvents]
      refine ⟨fun b hb => ?_, fun hno => absurd (List.mem_singleton_self _) (hno _)⟩
      cases List.mem_singleton.mp hb
      simp

theorem mod_askedBy {d : Bytes} {a : Asked} (h : AskedBy d c a) {b : Bool} (hb : .mod fd b ∈ a.calls) :
    c.fdSock = some fd := by
  cases h with
  | left s => cases hb
  | sent o =>
    obtain ⟨fd', hf, hx | hx⟩ := DNSConnect.mem_calls_sendDNSQueryBuffer hb
    · cases hx
    · cases hx
      exact hf

theorem asks_write (outs : ℕ → SendOutcome) (hf : c.fdSock = some fd) :
    Asks fd c.lsWriteQueue (c.write outs).1.lsWriteQueue (c.write outs).2 := by
  unfold DNSConnect.write DNSConnect.updateEvents
  dsimp only
  rw [hf]
  dsimp only [Option.elim_some]
  refine ⟨fun b hb => ?_, fun hno => absurd (List.mem_append_right _ (List.mem_singleton_self _)) (hno _)⟩
  rcases List.mem_append.mp hb with hb | hb
  · obtain ⟨d, -, hd⟩ := List.mem_map.mp hb
    cases hd
  · cases List.mem_singleton.mp hb
    simp

/-- **The calls of a work** ask for `EPOLLOUT` on the socket of a connection as they leave its queue. -/
theorem asks_step (zones : Zones) (e : Work.Query.Event) {w : DNSQureyWork}
    (hinj : ∀ i j fd, socketAt w.vsDNSConnects i = some fd → socketAt w.vsDNSConnects j = some fd → i = j)
    {i : ℕ} {c c' : DNSConnect} (hc : w.vsDNSConnects[i]? = some c) (hf : c.fdSock = some fd)
    (hc' : (Work.Query.step zones e w).1.vsDNSConnects[i]? = some c') :
    Asks fd c.lsWriteQueue c'.lsWriteQueue (Work.Query.step zones e w).2 := by
  have hi : socketAt w.vsDNSConnects i = some fd := socketAt_eq_some.mpr ⟨c, hc, hf⟩
  cases e with
  | recv l d now outs =>
    rcases step_recv zones l d now outs w with ⟨hconns, hcalls⟩ | ⟨asked, -, hget, hconns, hcalls⟩
    · rw [hconns, hc] at hc'
      rw [hcalls, Option.some.inj hc']
      exact Asks.left fun b => List.not_mem_nil
    · rw [hconns, List.getElem?_map] at hc'
      obtain ⟨a, ha, rfl⟩ := Option.map_eq_some_iff.mp hc'
      obtain ⟨c₁, hc₁, hby⟩ := hget i a ha
      obtain rfl : c = c₁ := Option.some.inj (hc.symm.trans hc₁)
      have hone := asks_askedBy hby hf
      rw [hcalls]
      refine ⟨fun b hb => ?_, fun hno => hone.same fun b hb => hno b ?_⟩
      · obtain ⟨a', ha', hb⟩ := List.mem_flatMap.mp hb
        obtain ⟨j, hj⟩ := List.getElem?_of_mem ha'
        obtain ⟨c₂, hc₂, hby₂⟩ := hget j a' hj
        obtain rfl := hinj i j fd hi (socketAt_eq_some.mpr ⟨c₂, hc₂, mod_askedBy hby₂ hb⟩)
        obtain rfl : a = a' := Option.some.inj (ha.symm.trans hj)
        exact hone.mod b hb
      · exact List.mem_flatMap.mpr ⟨a, List.mem_of_getElem? ha, hb⟩
  | read j d =>
    have hconns : (Work.Query.step zones (.read j d) w).1.vsDNSConnects = w.vsDNSConnects := by
      rcases step_read zones j d w with ⟨-, he⟩ | ⟨wi, -, -, ⟨-, he⟩ | ⟨-, he⟩⟩ <;> rw [he]
      rfl
    rw [hconns, hc] at hc'
    rw [Option.some.inj hc']
    refine Asks.left fun b hb => ?_
    obtain ⟨wi, -, -, -, ⟨out, -, hx⟩ | ⟨-, hx⟩⟩ := mem_calls_read.mp hb
    · cases hx
    · cases hx
  | disconnect j =>
    have hc' : w.vsDNSConnects[i]? = some c' := hc'
    rw [hc] at hc'
    rw [Option.some.inj hc']
    refine Asks.left fun b hb => ?_
    have hb : .mod fd b ∈ (w.vsDNSConnects[j]?).elim [] (·.removefd) := hb
    rcases hj : w.vsDNSConnects[j]? with _ | c₁ <;> rw [hj] at hb
    · cases hb
    · unfold DNSConnect.removefd at hb
      rw [Option.elim_some] at hb
      rcases hf₁ : c₁.fdSock with _ | fd₁ <;> rw [hf₁] at hb
      · cases hb
      · cases List.mem_singleton.mp hb
  | write j outs =>
    have hc' : (w.vsDNSConnects.modify j fun c => (c.write outs).1)[i]? = some c' := hc'
    rw [List.getElem?_modify, hc, Option.map_eq_map, Option.map_some] at hc'
    have hcalls : (Work.Query.step zones (.write j outs) w).2 =
        (w.vsDNSConnects[j]?).elim [] fun c => (c.write outs).2 := rfl
    by_cases hji : j = i
    · subst hji
      rw [if_pos rfl] at hc'
      rw [hcalls, hc, ← Option.some.inj hc']
      exact asks_write outs hf
    · rw [if_neg hji] at hc'
      rw [hcalls, ← Option.some.inj hc']
      refine Asks.left fun b hb => ?_
      rcases hj : w.vsDNSConnects[j]? with _ | c₁ <;> rw [hj] at hb
      · cases hb
      · obtain ⟨fd₁, hf₁, ⟨d, -, hx⟩ | ⟨b', hx⟩⟩ := DNSConnect.mem_calls_write hb
        · cases hx
        · cases hx
          exact hji (hinj j i fd (socketAt_eq_some.mpr ⟨c₁, hj, hf₁⟩) hi)

end Work

/-! ### The server -/

/-- **Every connection of every work** is listened to for `EPOLLOUT` exactly while it has something queued,
if it is listened to. -/
def AllPolled (s : Server) (k : Kernel) : Prop :=
  ∀ p w (i : ℕ) c fd, s.heap.lookup p = some w → w.vsDNSConnects[i]? = some c → c.fdSock = some fd →
    Polled k fd c.lsWriteQueue

section Server
variable {g : Setup} {s : Server} {k : Kernel} {log : List (Op Fd)} {p : WorkPtr} {w : DNSQureyWork}

theorem epollMod_performAll {o : SendOutcome} {cs : List Call} {s : Server} {fd : Fd} {b : Bool}
    (h : .mod fd b ∈ cs) : .epollMod fd b ∈ (s.performAll o cs).2 := by
  induction cs generalizing s with
  | nil => cases h
  | cons c cs ih =>
    rcases List.mem_cons.mp h with rfl | h
    · exact List.mem_append_left _ (List.mem_singleton_self _)
    · exact List.mem_append_right _ (ih h)

/-- **An event of a work** leaves it so: the calls are about the work's own sockets, none of which is the
listening socket or that of another work. -/
theorem AllPolled.workEvent (h : AllPolled s k) (ho : Owned s k log)
    (hlisten : s.fdListen ∉ s.spConnectionManager) (o : SendOutcome) (p : WorkPtr)
    (e : Work.Query.Event) :
    AllPolled (s.workEvent g.zones o p e).1 (k.run (s.workEvent g.zones o p e).2) := by
  rcases hw : s.heap.lookup p with _ | w
  · unfold Server.workEvent
    rw [hw]
    exact h
  have hadd : ∀ fd, .epollAdd fd ∉ (s.workEvent g.zones o p e).2 :=
    fun fd => epollAdd_notMem_workEvent g.zones o p e s fd
  have hmod : ∀ {fd b}, fd ≠ s.fdListen → .epollMod fd b ∈ (s.workEvent g.zones o p e).2 →
      .mod fd b ∈ (Work.Query.step g.zones e w).2 := by
    intro fd b hne hb
    obtain ⟨w', x, hw', hx, hp⟩ := mem_workEvent hb
    obtain rfl := Option.some.inj (hw.symm.trans hw')
    cases hp with
    | mod => exact hx
    | queued => exact absurd rfl hne
  intro p' w' i c' fd hw' hc' hf'
  rw [heap_workEvent hw] at hw'
  rcases lookup_insert_cases hw' with ⟨rfl, rfl⟩ | ⟨hne, hw'⟩
  · obtain ⟨c, hc, hk⟩ := (conns_step g.zones e w).2 i c' hc'
    have hf : c.fdSock = some fd := hk.fdSock.symm.trans hf'
    have hfd : fd ≠ s.fdListen := by
      rintro rfl
      exact hlisten (ho.mem_of_hasSocket (c := ⟨p', i⟩) ⟨w, hw, socketAt_eq_some.mpr ⟨c, hc, hf⟩⟩)
    have hinj : ∀ i j fd, socketAt w.vsDNSConnects i = some fd →
        socketAt w.vsDNSConnects j = some fd → i = j := by
      intro i j fd hi hj
      have hsame : (⟨p', i⟩ : ConnPtr) = ⟨p', j⟩ := ho.same_conn ⟨w, hw, hi⟩ ⟨w, hw, hj⟩
      exact congrArg ConnPtr.nIndex hsame
    have hasks := asks_step g.zones e hinj hc hf hc'
    refine (h p' w i c fd hw hc hf).run (hadd fd) (fun b hb => hasks.mod b (hmod hfd hb)) fun hno => ?_
    refine hasks.same fun b hb => hno b ?_
    unfold Server.workEvent
    rw [hw]
    exact epollMod_performAll hb
  · have hsock : HasSocket s ⟨p', i⟩ fd := ⟨w', hw', socketAt_eq_some.mpr ⟨c', hc', hf'⟩⟩
    have hfd : fd ≠ s.fdListen := by
      rintro rfl
      exact hlisten (ho.mem_of_hasSocket hsock)
    refine (h p' w' i c' fd hw' hc' hf').spared (hadd fd) fun b hb => ?_
    -- The calls of a work are about its own sockets.
    have hcall := hmod hfd hb
    by_cases hr : ∃ i d, e = .read i d
    · obtain ⟨i, d, rfl⟩ := hr
      obtain ⟨wi, -, -, -, ⟨out, -, hx⟩ | ⟨-, hx⟩⟩ := mem_calls_read.mp hcall
      · cases hx
      · cases hx
    · obtain ⟨j, c, fd', hc, hf, ⟨d, hx, -⟩ | ⟨b', hx⟩ | ⟨hx, -⟩⟩ :=
        mem_calls_step hcall fun i d hd => hr ⟨i, d, hd⟩
      · cases hx
      · cases hx
        have hsame : (⟨p', i⟩ : ConnPtr) = ⟨p, j⟩ :=
          ho.same_conn hsock ⟨w, hw, socketAt_eq_some.mpr ⟨c, hc, hf⟩⟩
        exact hne (congrArg ConnPtr.work hsame)
      · cases hx

theorem AllPolled.session (h : AllPolled s k) (ho : Owned s k log)
    (hlisten : s.fdListen ∉ s.spConnectionManager) (o : SendOutcome) (fd : Fd)
    (e : ℕ → Work.Query.Event) :
    AllPolled (s.session g.zones o fd e).1 (k.run (s.session g.zones o fd e).2) := by
  rcases session_cases g.zones o fd e s with ⟨-, he⟩ | ⟨c, -, he⟩ <;> rw [he]
  · refine fun p w i c fd' hw hc hf => (h p w i c fd' hw hc hf).spared ?_ fun b => ?_
    · exact fun hx => by cases List.mem_singleton.mp hx
    · exact fun hx => by cases List.mem_singleton.mp hx
  · exact h.workEvent ho hlisten o c.work _

theorem AllPolled.closeEach (h : AllPolled s k) (ho : Owned s k log) (f : DNSQureyWork → Bool)
    (keys : List Bytes) : AllPolled (s.closeEach f keys).1 (k.run (s.closeEach f keys).2) := by
  intro p w i c fd hw hc hf
  have hw := ((lookup_heap_closeEach ho).mp hw).1
  refine (h p w i c fd hw hc hf).spared (fun hx => ?_) fun b hx => ?_
  · obtain ⟨fd', hx | hx⟩ := mem_closeEach hx
    all_goals cases hx
  · obtain ⟨fd', hx | hx⟩ := mem_closeEach hx
    all_goals cases hx

theorem AllPolled.listenWrite (h : AllPolled s k) (ho : Owned s k log)
    (hlisten : s.fdListen ∉ s.spConnectionManager) (outs : ℕ → SendOutcome) :
    AllPolled (s.onListenWrite outs).1 (k.run (s.onListenWrite outs).2) := by
  intro p w i c fd hw hc hf
  refine (h p w i c fd hw hc hf).spared (fun hx => ?_) fun b hx => ?_
  · rcases mem_onListenWrite hx with ⟨ra, d, -, hx⟩ | ⟨b, hx⟩
    all_goals cases hx
  · rcases mem_onListenWrite hx with ⟨ra, d, -, hx⟩ | ⟨b', hx⟩
    · cases hx
    · cases hx
      exact hlisten (ho.mem_of_hasSocket (c := ⟨p, i⟩) ⟨w, hw, socketAt_eq_some.mpr ⟨c, hc, hf⟩⟩)

theorem notMem_of_epollAdd {conn : ℕ → ConnectOutcome} (zs : List ZoneInfo) (i : ℕ) {m : Map Fd ConnPtr}
    (hok : (initLoop p conn zs i m).ok = true) {fd : Fd}
    (h : .epollAdd fd ∈ (initLoop p conn zs i m).effects) : fd ∉ m := by
  induction zs generalizing i m with
  | nil => cases h
  | cons z zs ih =>
    unfold initLoop at hok h
    rcases hc : conn i with _ | fd₀ | fd₀ <;> simp only [hc] at hok h
    · exact ih (i + 1) hok h
    · rcases List.mem_append.mp h with h | h
      · rcases List.mem_pair.mp h with h | h
        all_goals cases h
      · exact ih (i + 1) hok h
    · rcases hs : saveItem fd₀ ⟨p, i⟩ m with _ | m' <;> simp only [hs] at hok h
      · cases hok
      unfold saveItem at hs
      split_ifs at hs with hm
      cases hs
      rcases List.mem_append.mp h with h | h
      · rcases List.mem_pair.mp h with h | h <;> cases h
        exact hm
      · exact fun hfd => ih (i + 1) hok h ((AList.mem_insert _).mpr (Or.inr hfd))

theorem AllPolled.setUp (h : AllPolled s k) (ho : Owned s k log) {r : Received}
    {conn : ℕ → ConnectOutcome} (hkey : addrToString g.inet r.addrClient ∉ s.spWorkManager)
    (hl : Lawful k (inited g conn s).effects)
    (hepoll : ∀ fd ∈ k.epoll, fd ∈ (withWork g r conn s).spConnectionManager →
      fd ∈ s.spConnectionManager) :
    AllPolled (withWork g r conn s) (k.run (inited g conn s).effects) := by
  have hok := (held_initLoop g.zones 0 ho.held hl).1
  have hno : ∀ fd b, .epollMod fd b ∉ (inited g conn s).effects := by
    intro fd b hx
    obtain ⟨fd', hx | hx | hx⟩ := mem_initLoop hx
    all_goals cases hx
  intro p w i c fd hw hc hf
  have hsock : HasSocket (withWork g r conn s) ⟨p, i⟩ fd := ⟨w, hw, socketAt_eq_some.mpr ⟨c, hc, hf⟩⟩
  rcases lookup_insert_cases hw with ⟨rfl, rfl⟩ | ⟨hne, hw⟩
  · -- A new socket comes into the epoll set without `EPOLLOUT`.
    have hqueue : c.lsWriteQueue = [] := ((conns_initLoop g.zones 0 hok).2 i c hc).2
    intro b hb
    rcases lookup_of_run hb with hm | ⟨rfl, -⟩ | ⟨hk, -⟩
    · exact absurd hm (hno fd b)
    · simp [hqueue]
    · have hfiled := hepoll fd (mem_of_lookup hk)
        ((ho.withWork hkey hl).mem_of_hasSocket hsock)
      obtain ⟨c₀, hc₀⟩ := Option.isSome_iff_exists.mp (AList.lookup_isSome.mpr hfiled)
      obtain ⟨w₀, hw₀, hs₀⟩ := (ho.entries fd c₀).mp hc₀
      have hold : c₀.work ≠ s.nextPtr := fun he => ho.nextPtr_notMem (he ▸ mem_of_lookup hw₀)
      have hsock₀ : HasSocket (withWork g r conn s) c₀ fd :=
        ⟨w₀, (AList.lookup_insert_ne hold).trans hw₀, hs₀⟩
      exact absurd (congrArg ConnPtr.work ((ho.withWork hkey hl).same_conn hsock₀ hsock)) hold
  · have hfiled : fd ∈ s.spConnectionManager :=
      ho.mem_of_hasSocket (c := ⟨p, i⟩) ⟨w, hw, socketAt_eq_some.mpr ⟨c, hc, hf⟩⟩
    exact (h p w i c fd hw hc hf).spared (fun hx => notMem_of_epollAdd g.zones 0 hok hx hfiled) (hno fd)

end Server

/-! ### Runs -/

section Run
variable {g : Setup} {fdListen : Fd} {kernel : Kernel} {tr : List (Entry Sys Event (List Effect))} {s : Sys}

theorem fdListen_run (h : Run (step g) (LawfulStep g) (Sys.start fdListen kernel) tr s) :
    s.server.fdListen = fdListen := by
  induction h with
  | start => rfl
  | next e h hok ih => exact (fdListen_step (owned_run h) hok).trans ih

/-- **Every run of the server** whose epoll set holds open descriptors when it starts. -/
theorem polled_run (h : Run (step g) (LawfulStep g) (Sys.start fdListen kernel) tr s)
    (hlisten : fdListen ∈ kernel.opened) (hepoll : ∀ fd ∈ kernel.epoll, fd ∈ kernel.opened) :
    AllPolled s.server s.kernel := by
  induction h with
  | start => exact fun p w i c fd hw => by cases hw
  | @next tr s e h hok ih =>
    have hnext := Run.next e h hok
    have ho := owned_run h
    have hserver : s.server.fdListen = fdListen := fdListen_run h
    have hapart : s.server.fdListen ∉ s.server.spConnectionManager :=
      hserver ▸ (open_before h hlisten).2.1
    cases e with
    | listenRead r now conn outs =>
      have hbefore : ∀ fd ∈ kernel.opened,
          fd ∉ (s.server.onListenRead g r now conn outs).1.spConnectionManager := fun fd hfd =>
        (open_before hnext hfd).2.1
      show AllPolled (s.server.onListenRead g r now conn outs).1
        (s.kernel.run (s.server.onListenRead g r now conn outs).2)
      rcases onListenRead_cases ho hok with ⟨-, he⟩ | ⟨-, p, -, he⟩ | ⟨-, hkey, hli, he⟩ <;>
        rw [he] at hbefore ⊢
      · exact ih
      · exact ih.workEvent ho hapart .sent p _
      · rw [(managers_workEvent _ _ _ _ _).1] at hbefore
        rw [Kernel.run_append]
        refine (ih.setUp ho hkey hli fun fd hfd hnew => ?_).workEvent (ho.withWork hkey hli) ?_ .sent _ _
        · exact (registered_run h fd hfd).resolve_left fun hm => hbefore fd (hepoll fd hm) hnew
        · exact hserver ▸ hbefore fdListen hlisten
    | listenWrite outs => exact ih.listenWrite ho hapart outs
    | upstreamError fd => exact ih.session ho hapart .sent fd .disconnect
    | upstreamRead fd d o => exact ih.session ho hapart o fd (.read · d)
    | upstreamWrite fd outs => exact ih.session ho hapart .sent fd (.write · outs)
    | closeIdle => exact ih.closeEach ho (·.isIdle) s.server.ssIdle
    | clearTimeout now => exact ih.closeEach ho (timedOut now) s.server.spWorkManager.keys
    | exitAndClear => exact ih.closeEach ho (fun _ => true) s.server.spWorkManager.keys

end Run

/-- **What the main loop waits for**, after any events: a descriptor in the epoll set that is not one of
`main` is the socket of a connection of a work, and is listened to for `EPOLLOUT` exactly while that
connection has something queued. -/
theorem main_polls (w : World) (c : GConfig) (k : Kernel) (hk : k.epoll = ∅) (m : Main) (fds : MainFds)
    (hstart : w.start c = (m, true)) (hfds : m.fds = some fds) (es : List Event)
    (hl : Lawful k (m.effects ++ (serve (w.setup c) es { fdListen := fds.fdListenServer }).2)) :
    let s := (serve (w.setup c) es { fdListen := fds.fdListenServer }).1
    let k' := k.run (m.effects ++ (serve (w.setup c) es { fdListen := fds.fdListenServer }).2)
    ∀ fd pollOut, k'.epoll.lookup fd = some pollOut → ¬ fds.Has fd → ∃ (p : ConnPtr) (work : DNSQureyWork)
      (conn : DNSConnect), s.spConnectionManager.lookup fd = some p ∧ s.heap.lookup p.work = some work ∧
        work.vsDNSConnects[p.nIndex]? = some conn ∧ conn.fdSock = some fd ∧
        (pollOut = true ↔ conn.lsWriteQueue ≠ []) := by
  obtain ⟨hfirst, hserve⟩ := lawful_append.mp hl
  obtain ⟨hopen, hlook⟩ := epoll_start hstart hfds hk hfirst
  have hmain : ∀ fd ∈ (k.run m.effects).epoll, fds.Has fd := by
    intro fd hfd
    obtain ⟨b, hb⟩ := Option.isSome_iff_exists.mp (AList.lookup_isSome.mpr hfd)
    exact ((hlook fd b).mp hb).1
  have hbegin : Run (step (w.setup c)) (LawfulStep (w.setup c))
      (Sys.start fds.fdListenServer (k.run m.effects)) [] _ := Run.start
  have hrun := hbegin.exec (allowed_serve.mpr hserve)
  have hpolled := polled_run hrun (hopen _ (.inl rfl)) fun fd hfd => hopen fd (hmain fd hfd)
  have hreg := registered_run hrun
  have hown := owned_run hrun
  have hend : (exec (step (w.setup c)) es [] (Sys.start fds.fdListenServer (k.run m.effects))).2 = _ :=
    (exec_serve es [] _ _).1
  rw [hend] at hpolled hreg hown
  rw [Kernel.run_append]
  intro s k' fd b hb hup
  have hfiled := (hreg fd (mem_of_lookup hb)).resolve_left fun hm => hup (hmain fd hm)
  obtain ⟨p, hp⟩ := Option.isSome_iff_exists.mp (AList.lookup_isSome.mpr hfiled)
  obtain ⟨work, hwork, hs⟩ := (hown.entries fd p).mp hp
  obtain ⟨conn, hconn, hf⟩ := socketAt_eq_some.mp hs
  exact ⟨p, work, conn, hp, hwork, hconn, hf, hpolled p.work work p.nIndex conn fd hwork hconn hf b hb⟩

/-- A query that the kernel does not take yet. -/
def blockedQuery : List Event :=
  [.listenRead (datagram (Work.Steps.query 5 [97] 1)) 0 (fun _ => .connected 7) fun _ => .wouldBlock]

theorem main_polls_blockedQuery :
    let s := (serve (oneQuery.setup { vsZoneInfos := [{}] }) blockedQuery { fdListen := 4 }).1
    ∃ (p : ConnPtr) (work : DNSQureyWork) (conn : DNSConnect),
      s.spConnectionManager.lookup 7 = some p ∧ s.heap.lookup p.work = some work ∧
        work.vsDNSConnects[p.nIndex]? = some conn ∧ conn.fdSock = some 7 ∧ conn.lsWriteQueue ≠ [] := by
  obtain ⟨p, work, conn, hp, hwork, hconn, hf, hq⟩ :=
    main_polls oneQuery { vsZoneInfos := [{}] } kernelStart rfl _ ⟨4, 5, [6]⟩ rfl rfl blockedQuery
      (by decide +kernel) 7 true (by decide +kernel) (by decide)
  exact ⟨p, work, conn, hp, hwork, hconn, hf, hq.mp rfl⟩

end DnsMultiZone.MainLoop.Polling
