import DnsMultiZone.MainLoop.Dispatch

/-! # Who has which socket

`ConnectionManager` has exactly the sockets of the works that `WorkManager` has, and they are open
(`Owned`). So a descriptor the kernel hands out is not filed yet, and setting up a work does not fail;
and closing a work closes its sockets, which no other work has.

* `owned_step`, `owned_run`: the invariant.
* `sockets_exact`: what it says of every run. -/

namespace DnsMultiZone.MainLoop.Ownership

open DnsMultiZone.Lib.BigEndian DnsMultiZone.Lib.Assoc DnsMultiZone.Lib.Runs DnsMultiZone.Lib.Handles
open DnsMultiZone.Config.ConfigType DnsMultiZone.Work.Connect
open DnsMultiZone.Work.Query hiding Event step
open DnsMultiZone.MainLoop.Descriptors DnsMultiZone.MainLoop.Dispatch

/-! ### Sockets of works -/

/-- The socket at place `i` among connections. -/
def socketAt (cs : List DNSConnect) (i : ℕ) : Option Fd := (cs[i]?).bind (·.fdSock)

theorem socketAt_eq_some {cs : List DNSConnect} {i : ℕ} {fd : Fd} :
    socketAt cs i = some fd ↔ ∃ c, cs[i]? = some c ∧ c.fdSock = some fd := Option.bind_eq_some_iff

theorem socketAt_step (zones : Zones) (e : Work.Query.Event) (w : DNSQureyWork) (i : ℕ) :
    socketAt (Work.Query.step zones e w).1.vsDNSConnects i = socketAt w.vsDNSConnects i := by
  obtain ⟨hlen, hget⟩ := Work.Steps.conns_step zones e w
  unfold socketAt
  rcases hc : (Work.Query.step zones e w).1.vsDNSConnects[i]? with _ | c'
  · rw [List.getElem?_eq_none_iff, hlen] at hc
    rw [List.getElem?_eq_none hc]
  · obtain ⟨c, hc', hk⟩ := hget i c' hc
    rw [hc']
    exact hk.fdSock

/-- The connection `c` points to has the socket `fd`. -/
def HasSocket (s : Server) (c : ConnPtr) (fd : Fd) : Prop :=
  ∃ w, s.heap.lookup c.work = some w ∧ socketAt w.vsDNSConnects c.nIndex = some fd

/-! ### Descriptors that are filed -/

/-- What is filed is open, and the log of descriptors is balanced for it. -/
structure Held (m : Map Fd ConnPtr) (k : Kernel) (log : List (Op Fd)) : Prop where
  opened : ∀ fd ∈ m, fd ∈ k.opened
  balanced : Balanced {fd | fd ∈ m} log

section Held

variable {m : Map Fd ConnPtr} {k : Kernel} {log : List (Op Fd)} {fd : Fd}

theorem Held.quiet (h : Held m k log) {es : List Effect} (hq : Quiet es) :
    Held m (k.run es) (log ++ ops es) := by
  refine ⟨fun fd hfd => ?_, ?_⟩
  · rw [hq.opened]
    exact h.opened fd hfd
  · rw [hq.ops, List.append_nil]
    exact h.balanced

theorem Held.refused (h : Held m k log) (hn : fd ∉ k.opened) :
    Held m (k.run [.socket fd, .close fd]) (log ++ ops [.socket fd, .close fd]) := by
  have hm : fd ∉ m := fun hm => hn (h.opened fd hm)
  refine ⟨fun fd' hfd' => ?_, h.balanced.acquire_release hm⟩
  refine Finset.mem_erase.mpr ⟨fun he => hm (he ▸ hfd'), Finset.mem_insert_of_mem (h.opened fd' hfd')⟩

theorem Held.connected (h : Held m k log) (hn : fd ∉ k.opened) (c : ConnPtr) :
    Held (m.insert fd c) (k.run [.socket fd, .epollAdd fd]) (log ++ ops [.socket fd, .epollAdd fd]) := by
  have hm : fd ∉ m := fun hm => hn (h.opened fd hm)
  constructor
  · intro fd' hfd'
    rw [Kernel.run_cons, Kernel.run_cons, Kernel.run_nil, opened_apply rfl]
    rcases (AList.mem_insert _).mp hfd' with rfl | hfd'
    · exact Finset.mem_insert_self _ _
    · exact Finset.mem_insert_of_mem (h.opened fd' hfd')
  · have hset : {fd' | fd' ∈ m.insert fd c} = insert fd {fd' | fd' ∈ m} :=
      Set.ext fun fd' => AList.mem_insert _
    rw [hset]
    exact h.balanced.acquire hm

theorem Held.exit (h : Held m k log) (hm : fd ∈ m) :
    Held (m.erase fd) (k.run [.epollDel fd, .close fd]) (log ++ ops [.epollDel fd, .close fd]) := by
  constructor
  · intro fd' hfd'
    obtain ⟨hne, hfd'⟩ := AList.mem_erase.mp hfd'
    exact Finset.mem_erase.mpr ⟨hne, h.opened fd' hfd'⟩
  · have hset : {fd' | fd' ∈ m.erase fd} = {fd' | fd' ∈ m} \ {fd} :=
      Set.ext fun fd' => AList.mem_erase.trans and_comm
    rw [hset]
    exact h.balanced.release hm

end Held

/-! ### Setting up and closing -/

section Init

variable {p : WorkPtr} {conn : ℕ → ConnectOutcome} {k : Kernel} {log : List (Op Fd)}

/-- Where the kernel hands out no open descriptor, nothing fails. -/
theorem held_initLoop (zs : List ZoneInfo) (i : ℕ) {m : Map Fd ConnPtr} (h : Held m k log)
    (hl : Lawful k (initLoop p conn zs i m).effects) :
    (initLoop p conn zs i m).ok = true ∧
      Held (initLoop p conn zs i m).spConnectionManager (k.run (initLoop p conn zs i m).effects)
        (log ++ ops (initLoop p conn zs i m).effects) := by
  induction zs generalizing i m k log with
  | nil =>
    have hq : Quiet [] := fun e he => by cases he
    exact ⟨rfl, h.quiet hq⟩
  | cons z zs ih =>
    have hcons : ∀ {es : List Effect} {m' : Map Fd ConnPtr} {c : DNSConnect},
        Held m' (k.run es) (log ++ ops es) →
        Lawful k ((initLoop p conn zs (i + 1) m').cons c es).effects →
        ((initLoop p conn zs (i + 1) m').cons c es).ok = true ∧
          Held ((initLoop p conn zs (i + 1) m').cons c es).spConnectionManager
            (k.run ((initLoop p conn zs (i + 1) m').cons c es).effects)
            (log ++ ops ((initLoop p conn zs (i + 1) m').cons c es).effects) := by
      intro es m' c hm hl
      obtain ⟨hok, hheld⟩ := ih (i + 1) hm (lawful_append.mp hl).2
      refine ⟨hok, ?_⟩
      show Held _ (k.run (es ++ _)) (log ++ ops (es ++ _))
      rw [Kernel.run_append, ops_append, ← List.append_assoc]
      exact hheld
    unfold initLoop at hl ⊢
    rcases hc : conn i with _ | fd | fd <;> simp only [hc] at hl ⊢
    · exact hcons (h.quiet fun e he => by cases he) hl
    · exact hcons (h.refused (lawful_append.mp hl).1.1) hl
    · rcases hs : saveItem fd ⟨p, i⟩ m with _ | m' <;> simp only [hs] at hl ⊢
      · unfold saveItem at hs
        split_ifs at hs with hm
        exact absurd (h.opened fd hm) hl.1
      · unfold saveItem at hs
        split_ifs at hs with hm
        cases hs
        exact hcons (h.connected (lawful_append.mp hl).1.1 _) hl

theorem mem_initLoop {zs : List ZoneInfo} {i : ℕ} {m : Map Fd ConnPtr} {x : Effect}
    (h : x ∈ (initLoop p conn zs i m).effects) :
    ∃ fd, x = .socket fd ∨ x = .close fd ∨ x = .epollAdd fd := by
  induction zs generalizing i m with
  | nil => cases h
  | cons z zs ih =>
    unfold initLoop at h
    rcases hc : conn i with _ | fd | fd <;> simp only [hc] at h
    · exact ih h
    · rcases List.mem_append.mp h with h | h
      · exact ⟨fd, by simpa using Or.imp_right Or.inl (List.mem_pair.mp h)⟩
      · exact ih h
    · have hpair : x ∈ [Effect.socket fd, .epollAdd fd] →
          ∃ fd, x = .socket fd ∨ x = .close fd ∨ x = .epollAdd fd :=
        fun h => ⟨fd, Or.imp_right Or.inr (List.mem_pair.mp h)⟩
      rcases hs : saveItem fd ⟨p, i⟩ m with _ | m' <;> simp only [hs] at h
      · exact hpair h
      · exact (List.mem_append.mp h).elim hpair ih

theorem socketAt_cons_iff {c : ConnPtr} {c₀ : DNSConnect} {cs : List DNSConnect} {i : ℕ} {fd : Fd} :
    (∃ j, c = ⟨p, i + j⟩ ∧ socketAt (c₀ :: cs) j = some fd) ↔
      (c = ⟨p, i⟩ ∧ c₀.fdSock = some fd) ∨ ∃ j, c = ⟨p, i + 1 + j⟩ ∧ socketAt cs j = some fd := by
  constructor
  · rintro ⟨j, hc, hs⟩
    rcases j with _ | j
    · exact Or.inl ⟨hc, hs⟩
    · exact Or.inr ⟨j, by rw [hc, Nat.add_assoc, Nat.add_comm 1], hs⟩
  · rintro (⟨hc, hs⟩ | ⟨j, hc, hs⟩)
    · exact ⟨0, hc, hs⟩
    · exact ⟨j + 1, by rw [hc, Nat.add_assoc, Nat.add_comm 1], hs⟩

/-- What is filed after a work is set up: what was filed before, and the work's sockets. -/
theorem lookup_initLoop (zs : List ZoneInfo) (i : ℕ) {m : Map Fd ConnPtr}
    (hok : (initLoop p conn zs i m).ok = true) {fd : Fd} {c : ConnPtr} :
    (initLoop p conn zs i m).spConnectionManager.lookup fd = some c ↔ m.lookup fd = some c ∨
      ∃ j, c = ⟨p, i + j⟩ ∧ socketAt (initLoop p conn zs i m).vsDNSConnects j = some fd := by
  induction zs generalizing i m with
  | nil => simp [initLoop, socketAt]
  | cons z zs ih =>
    unfold initLoop at hok ⊢
    rcases hc : conn i with _ | fd₀ | fd₀ <;> simp only [hc] at hok ⊢
    · rw [Inited.cons, socketAt_cons_iff, ih (i + 1) hok]
      simp
    · rw [Inited.cons, socketAt_cons_iff, ih (i + 1) hok]
      simp
    · rcases hs : saveItem fd₀ ⟨p, i⟩ m with _ | m' <;> simp only [hs] at hok ⊢
      · cases hok
      · unfold saveItem at hs
        split_ifs at hs with hm
        cases hs
        rw [Inited.cons, socketAt_cons_iff, ih (i + 1) hok, lookup_insert_iff hm, Option.some_inj,
          eq_comm (a := fd₀), and_comm (a := fd = fd₀)]
        tauto

end Init

section Exit

variable {k : Kernel} {log : List (Op Fd)}

theorem lookup_exitConns {cs : List DNSConnect} {m : Map Fd ConnPtr} {fd : Fd} {c : ConnPtr} :
    (exitConns cs m).1.lookup fd = some c ↔ m.lookup fd = some c ∧ ∀ i, socketAt cs i ≠ some fd := by
  induction cs generalizing m with
  | nil => simp [exitConns, socketAt]
  | cons c₀ cs ih =>
    have hall : (∀ i, socketAt (c₀ :: cs) i ≠ some fd) ↔
        c₀.fdSock ≠ some fd ∧ ∀ i, socketAt cs i ≠ some fd := by
      refine ⟨fun h => ⟨h 0, fun i => h (i + 1)⟩, fun h i => ?_⟩
      rcases i with _ | i
      · exact h.1
      · exact h.2 i
    rw [hall]
    unfold exitConns
    rcases hs : c₀.fdSock with _ | fd₀
    · simp [ih]
    · simp only [ih, Option.some_inj, ne_eq]
      by_cases he : fd₀ = fd
      · subst he
        simp [AList.lookup_erase]
      · rw [AList.lookup_erase_ne (Ne.symm he)]
        simp [he]

/-- A work that exits closes its sockets, each once. -/
theorem held_exitConns {cs : List DNSConnect} {m : Map Fd ConnPtr} (h : Held m k log)
    (hm : ∀ i fd, socketAt cs i = some fd → fd ∈ m)
    (hinj : ∀ i j fd, socketAt cs i = some fd → socketAt cs j = some fd → i = j) :
    Held (exitConns cs m).1 (k.run (exitConns cs m).2) (log ++ ops (exitConns cs m).2) := by
  induction cs generalizing m k log with
  | nil => exact h.quiet fun e he => by cases he
  | cons c cs ih =>
    have hinj' : ∀ i j fd, socketAt cs i = some fd → socketAt cs j = some fd → i = j :=
      fun i j fd hi hj => Nat.succ.inj (hinj (i + 1) (j + 1) fd hi hj)
    unfold exitConns
    rcases hs : c.fdSock with _ | fd
    · exact ih h (fun i fd hi => hm (i + 1) fd hi) hinj'
    · have hfd := hm 0 fd hs
      have hne : ∀ i fd', socketAt cs i = some fd' → fd' ∈ m.erase fd := by
        intro i fd' hi
        refine AList.mem_erase.mpr ⟨fun he => ?_, hm (i + 1) fd' hi⟩
        subst he
        exact absurd (hinj 0 (i + 1) fd' hs hi) (Nat.succ_ne_zero i).symm
      have hnext := ih (h.exit hfd) hne hinj'
      rw [← Kernel.run_append, List.append_assoc, ← ops_append] at hnext
      exact hnext

theorem mem_exitConns {cs : List DNSConnect} {m : Map Fd ConnPtr} {x : Effect}
    (h : x ∈ (exitConns cs m).2) :
    ∃ i fd, socketAt cs i = some fd ∧ (x = .epollDel fd ∨ x = .close fd) := by
  induction cs generalizing m with
  | nil => cases h
  | cons c cs ih =>
    have hnext : ∀ {m}, x ∈ (exitConns cs m).2 →
        ∃ i fd, socketAt (c :: cs) i = some fd ∧ (x = .epollDel fd ∨ x = .close fd) := by
      intro m h
      obtain ⟨i, fd, hi, hx⟩ := ih h
      exact ⟨i + 1, fd, hi, hx⟩
    unfold exitConns at h
    rcases hs : c.fdSock with _ | fd <;> simp only [hs] at h
    · exact hnext h
    · rcases List.mem_cons.mp h with rfl | h
      · exact ⟨0, fd, hs, Or.inl rfl⟩
      · rcases List.mem_cons.mp h with rfl | h
        · exact ⟨0, fd, hs, Or.inr rfl⟩
        · exact hnext h

end Exit

/-! ### Calls of works -/

theorem perform_server (o : SendOutcome) (c : Call) (s : Server) :
    ∃ queue idle, (s.perform o c).1 = { s with lsSendQueue := queue, ssIdle := idle } := by
  cases c with
  | sendTo ra d =>
    unfold Server.perform Server.sendTo
    dsimp only
    split_ifs
    all_goals exact ⟨_, _, rfl⟩
  | _ => exact ⟨_, _, rfl⟩

theorem performAll_server (o : SendOutcome) (cs : List Call) (s : Server) :
    ∃ queue idle, (s.performAll o cs).1 = { s with lsSendQueue := queue, ssIdle := idle } := by
  induction cs generalizing s with
  | nil => exact ⟨_, _, rfl⟩
  | cons c cs ih =>
    obtain ⟨queue, idle, hone⟩ := perform_server o c s
    obtain ⟨queue', idle', hall⟩ := ih (s.perform o c).1
    refine ⟨queue', idle', ?_⟩
    show ((s.perform o c).1.performAll o cs).1 = _
    rw [hall, hone]

/-- What a call does to the outside: what it says itself, or something on the listening socket. -/
inductive Performed (fdListen : Fd) : Call → Effect → Prop
  | send (fd : Fd) (d : Bytes) : Performed fdListen (.send fd d) (.send fd d)
  | mod (fd : Fd) (b : Bool) : Performed fdListen (.mod fd b) (.epollMod fd b)
  | del (fd : Fd) : Performed fdListen (.del fd) (.epollDel fd)
  | reply (ra : ReplyAddr) (d : Bytes) : Performed fdListen (.sendTo ra d) (.sendReply ra d)
  | queued (ra : ReplyAddr) (d : Bytes) (b : Bool) :
      Performed fdListen (.sendTo ra d) (.epollMod fdListen b)

theorem mem_performAll {o : SendOutcome} {cs : List Call} {s : Server} {x : Effect}
    (h : x ∈ (s.performAll o cs).2) : ∃ c ∈ cs, Performed s.fdListen c x := by
  induction cs generalizing s with
  | nil => cases h
  | cons c cs ih =>
    rcases List.mem_append.mp h with h | h
    · refine ⟨c, List.mem_cons_self, ?_⟩
      cases c with
      | send fd d => exact List.mem_singleton.mp h ▸ .send fd d
      | mod fd b => exact List.mem_singleton.mp h ▸ .mod fd b
      | del fd => exact List.mem_singleton.mp h ▸ .del fd
      | workClose key => cases h
      | sendTo ra d =>
        unfold Server.perform Server.sendTo at h
        dsimp only at h
        split_ifs at h
        · exact List.mem_singleton.mp h ▸ .reply ra d
        · cases h
        · exact List.mem_singleton.mp h ▸ .queued ra d _
    · obtain ⟨c', hc', hp⟩ := ih h
      obtain ⟨queue, idle, hone⟩ := perform_server o c s
      rw [hone] at hp
      exact ⟨c', List.mem_cons_of_mem _ hc', hp⟩

theorem quiet_performAll (o : SendOutcome) (cs : List Call) (s : Server) :
    Quiet (s.performAll o cs).2 := by
  intro x hx
  obtain ⟨c, -, hp⟩ := mem_performAll hx
  cases hp
  all_goals rfl

/-- An event of a work does outside what its calls do. -/
theorem mem_workEvent {s : Server} {zones : Zones} {o : SendOutcome} {p : WorkPtr}
    {e : Work.Query.Event} {x : Effect} (h : x ∈ (s.workEvent zones o p e).2) :
    ∃ w c, s.heap.lookup p = some w ∧ c ∈ (Work.Query.step zones e w).2 ∧
      Performed s.fdListen c x := by
  unfold Server.workEvent at h
  rcases hw : s.heap.lookup p with _ | w <;> simp only [hw] at h
  · cases h
  · obtain ⟨c, hc, hp⟩ := mem_performAll h
    exact ⟨w, c, rfl, hc, hp⟩

theorem mem_onListenWrite {s : Server} {outs : ℕ → SendOutcome} {x : Effect}
    (h : x ∈ (s.onListenWrite outs).2) :
    (∃ ra d, (ra, d) ∈ s.lsSendQueue ∧ x = .sendReply ra d) ∨ ∃ b, x = .epollMod s.fdListen b := by
  rcases List.mem_append.mp h with h | h
  · obtain ⟨⟨ra, d⟩, hd, rfl⟩ := List.mem_map.mp h
    exact Or.inl ⟨ra, d, DNSConnect.mem_writeLoop (Or.inl hd), rfl⟩
  · exact Or.inr ⟨_, List.mem_singleton.mp h⟩

/-- An event on a descriptor of an upstream is one of a work, or takes the descriptor out of the epoll
set. -/
theorem session_cases (zones : Zones) (o : SendOutcome) (fd : Fd) (e : ℕ → Work.Query.Event)
    (s : Server) :
    (s.spConnectionManager.lookup fd = none ∧ s.session zones o fd e = (s, [.epollDel fd])) ∨
    ∃ c, s.spConnectionManager.lookup fd = some c ∧
      s.session zones o fd e = s.workEvent zones o c.work (e c.nIndex) := by
  unfold Server.session
  rcases s.spConnectionManager.lookup fd with _ | c
  · exact Or.inl ⟨rfl, rfl⟩
  · exact Or.inr ⟨c, rfl, rfl⟩

/-! ### The invariant -/

/-- **`ConnectionManager` has the sockets of all works**, the works are those of `WorkManager`, and the
sockets are open. -/
structure Owned (s : Server) (k : Kernel) (log : List (Op Fd)) : Prop where
  entries : ∀ fd c, s.spConnectionManager.lookup fd = some c ↔ HasSocket s c fd
  stored : ∀ sKey p, s.spWorkManager.lookup sKey = some p ↔
    ∃ w, s.heap.lookup p = some w ∧ w.sKey = sKey
  next : ∀ p ∈ s.heap, p < s.nextPtr
  held : Held s.spConnectionManager k log

section Owned

variable {s : Server} {k : Kernel} {log : List (Op Fd)} {p : WorkPtr} {w : DNSQureyWork}

theorem owned_start (fdListen : Fd) (k : Kernel) : Owned { fdListen } k [] := by
  refine ⟨fun fd c => ?_, fun sKey p => ?_, fun p hp => absurd hp (AList.notMem_empty p), ?_, ?_⟩
  · constructor
    · intro h
      cases h
    · rintro ⟨w, hw, -⟩
      cases hw
  · constructor
    · intro h
      cases h
    · rintro ⟨w, hw, -⟩
      cases hw
  · exact fun fd hfd => absurd hfd (AList.notMem_empty fd)
  · have hset : {fd : Fd | fd ∈ (∅ : Map Fd ConnPtr)} = ∅ :=
      Set.eq_empty_iff_forall_notMem.mpr fun fd => AList.notMem_empty fd
    show Balanced {fd : Fd | fd ∈ (∅ : Map Fd ConnPtr)} []
    rw [hset]
    exact balanced_nil

theorem Owned.same_conn (h : Owned s k log) {c c' : ConnPtr} {fd : Fd} (hc : HasSocket s c fd)
    (hc' : HasSocket s c' fd) : c = c' :=
  Option.some.inj (((h.entries fd c).mpr hc).symm.trans ((h.entries fd c').mpr hc'))

theorem Owned.mem_of_hasSocket (h : Owned s k log) {c : ConnPtr} {fd : Fd} (hc : HasSocket s c fd) :
    fd ∈ s.spConnectionManager :=
  mem_of_lookup ((h.entries fd c).mpr hc)

theorem Owned.nextPtr_notMem (h : Owned s k log) : s.nextPtr ∉ s.heap :=
  fun hp => lt_irrefl _ (h.next _ hp)

theorem Owned.performAll (h : Owned s k log) (o : SendOutcome) (cs : List Call) :
    Owned (s.performAll o cs).1 (k.run (s.performAll o cs).2) (log ++ ops (s.performAll o cs).2) := by
  obtain ⟨queue, idle, he⟩ := performAll_server o cs s
  have hheld := h.held.quiet (quiet_performAll o cs s)
  rw [he]
  exact ⟨h.entries, h.stored, h.next, hheld⟩

/-- A work changes, but not its key or its sockets. -/
theorem Owned.insert (h : Owned s k log) (hw : s.heap.lookup p = some w) {w' : DNSQureyWork}
    (hkey : w'.sKey = w.sKey)
    (hs : ∀ i, socketAt w'.vsDNSConnects i = socketAt w.vsDNSConnects i) :
    Owned { s with heap := s.heap.insert p w' } k log := by
  have hlookup : ∀ p', p' ≠ p → (s.heap.insert p w').lookup p' = s.heap.lookup p' :=
    fun p' hp => AList.lookup_insert_ne hp
  refine ⟨fun fd c => (h.entries fd c).trans ?_, fun sKey p' => (h.stored sKey p').trans ?_,
    fun p' hp' => ?_, h.held⟩
  · show _ ↔ ∃ w₁, (s.heap.insert p w').lookup c.work = some w₁ ∧ _
    by_cases hc : c.work = p
    · unfold HasSocket
      rw [hc, AList.lookup_insert, hw]
      simp [hs]
    · rw [hlookup _ hc]
      rfl
  · show _ ↔ ∃ w₁, (s.heap.insert p w').lookup p' = some w₁ ∧ _
    by_cases hp : p' = p
    · rw [hp, AList.lookup_insert, hw]
      simp [hkey]
    · rw [hlookup _ hp]
  · rcases (AList.mem_insert _).mp hp' with rfl | hp'
    · exact h.next _ (mem_of_lookup hw)
    · exact h.next _ hp'

theorem Owned.workEvent (h : Owned s k log) (zones : Zones) (o : SendOutcome) (p : WorkPtr)
    (e : Work.Query.Event) : Owned (s.workEvent zones o p e).1 (k.run (s.workEvent zones o p e).2)
      (log ++ ops (s.workEvent zones o p e).2) := by
  unfold Server.workEvent
  rcases hw : s.heap.lookup p with _ | w
  · rw [show ops [] = [] from rfl, List.append_nil]
    exact h
  · exact (h.insert hw (Work.Steps.sKey_step zones e w) (socketAt_step zones e w)).performAll o _

end Owned

/-! ### A datagram of a client -/

/-- What `Init` leaves for a new client. -/
def inited (g : Setup) (conn : ℕ → ConnectOutcome) (s : Server) : Inited :=
  initLoop s.nextPtr conn g.zones 0 s.spConnectionManager

/-- The work of a new client. -/
def newWork (g : Setup) (r : Received) (conn : ℕ → ConnectOutcome) (s : Server) : DNSQureyWork where
  raReply := { ssClient := r.addrClient }
  vsDNSConnects := (inited g conn s).vsDNSConnects
  sKey := addrToString g.inet r.addrClient

/-- The server with that work. -/
def withWork (g : Setup) (r : Received) (conn : ℕ → ConnectOutcome) (s : Server) : Server :=
  { s with
    spConnectionManager := (inited g conn s).spConnectionManager
    spWorkManager := s.spWorkManager.insert (addrToString g.inet r.addrClient) s.nextPtr
    heap := s.heap.insert s.nextPtr (newWork g r conn s)
    nextPtr := s.nextPtr + 1 }

section Datagram

variable {s : Server} {k : Kernel} {log : List (Op Fd)} {g : Setup} {r : Received} {now : ℕ}
  {conn : ℕ → ConnectOutcome} {outs : ℕ → SendOutcome}

/-- **Where a datagram goes**: nowhere, to the work of its client, or to a new one. -/
theorem onListenRead_cases (h : Owned s k log) (hl : Lawful k (s.onListenRead g r now conn outs).2) :
    (r.sBuffer = [] ∧ s.onListenRead g r now conn outs = (s, [])) ∨
    (r.sBuffer ≠ [] ∧ ∃ p, s.spWorkManager.lookup (addrToString g.inet r.addrClient) = some p ∧
      s.onListenRead g r now conn outs =
        s.workEvent g.zones .sent p (.recv r.localAddr r.sBuffer now outs)) ∨
    r.sBuffer ≠ [] ∧ addrToString g.inet r.addrClient ∉ s.spWorkManager ∧ Lawful k (inited g conn s).effects ∧
      s.onListenRead g r now conn outs =
        (((withWork g r conn s).workEvent g.zones .sent s.nextPtr
            (.recv r.localAddr r.sBuffer now outs)).1,
          (inited g conn s).effects ++ ((withWork g r conn s).workEvent g.zones .sent s.nextPtr
            (.recv r.localAddr r.sBuffer now outs)).2) := by
  unfold Server.onListenRead at hl ⊢
  by_cases hb : r.sBuffer = []
  · exact Or.inl ⟨hb, if_pos hb⟩
  rw [if_neg hb] at hl ⊢
  rcases hp : s.spWorkManager.lookup (addrToString g.inet r.addrClient) with _ | p
  · have hkey : addrToString g.inet r.addrClient ∉ s.spWorkManager := AList.lookup_eq_none.mp hp
    have hsave : saveItem (addrToString g.inet r.addrClient) s.nextPtr s.spWorkManager =
        some (s.spWorkManager.insert (addrToString g.inet r.addrClient) s.nextPtr) := if_neg hkey
    simp only [hp, hsave] at hl ⊢
    have hli : Lawful k (inited g conn s).effects := by
      split at hl
      · exact (lawful_append.mp hl).1
      · exact (lawful_append.mp hl).1
    have hok := (held_initLoop g.zones 0 h.held hli).1
    rw [if_pos hok]
    exact Or.inr (Or.inr ⟨hb, hkey, hli, rfl⟩)
  · exact Or.inr (Or.inl ⟨hb, p, rfl, by simp only [hp]⟩)

theorem Owned.withWork (h : Owned s k log) (hkey : addrToString g.inet r.addrClient ∉ s.spWorkManager)
    (hl : Lawful k (inited g conn s).effects) :
    Owned (withWork g r conn s) (k.run (inited g conn s).effects)
      (log ++ ops (inited g conn s).effects) := by
  obtain ⟨hok, hheld⟩ := held_initLoop g.zones 0 h.held hl
  have hnew := h.nextPtr_notMem
  refine ⟨fun fd c => (lookup_initLoop g.zones 0 hok).trans ?_, fun sKey p => ?_, fun p hp => ?_, hheld⟩
  · show _ ↔ ∃ w, (s.heap.insert s.nextPtr (newWork g r conn s)).lookup c.work = some w ∧ _
    simp only [lookup_insert_iff hnew, h.entries fd c, Nat.zero_add]
    constructor
    · rintro (⟨w, hw, hs⟩ | ⟨j, rfl, hs⟩)
      · exact ⟨w, Or.inr hw, hs⟩
      · exact ⟨_, Or.inl ⟨rfl, rfl⟩, hs⟩
    · rintro ⟨w, ⟨hc, rfl⟩ | hw, hs⟩
      · exact Or.inr ⟨c.nIndex, by rw [← hc], hs⟩
      · exact Or.inl ⟨w, hw, hs⟩
  · show (s.spWorkManager.insert _ s.nextPtr).lookup sKey = some p ↔
      ∃ w, (s.heap.insert s.nextPtr (newWork g r conn s)).lookup p = some w ∧ _
    simp only [lookup_insert_iff hnew, lookup_insert_iff hkey, h.stored sKey p]
    constructor
    · rintro (⟨rfl, rfl⟩ | ⟨w, hw, hs⟩)
      · exact ⟨_, Or.inl ⟨rfl, rfl⟩, rfl⟩
      · exact ⟨w, Or.inr hw, hs⟩
    · rintro ⟨w, ⟨rfl, rfl⟩ | hw, hs⟩
      · exact Or.inl ⟨hs.symm, rfl⟩
      · exact Or.inr ⟨w, hw, hs⟩
  · rcases (AList.mem_insert _).mp hp with rfl | hp
    · exact Nat.lt_succ_self _
    · exact (h.next p hp).trans (Nat.lt_succ_self _)

theorem Owned.onListenRead (h : Owned s k log)
    (hl : Lawful k (s.onListenRead g r now conn outs).2) :
    Owned (s.onListenRead g r now conn outs).1 (k.run (s.onListenRead g r now conn outs).2)
      (log ++ ops (s.onListenRead g r now conn outs).2) := by
  rcases onListenRead_cases h hl with ⟨-, he⟩ | ⟨-, p, -, he⟩ | ⟨-, hkey, hli, he⟩
  · rw [he, show ops [] = [] from rfl, List.append_nil]
    exact h
  · rw [he]
    exact h.workEvent _ _ _ _
  · have hnew := (h.withWork hkey hli).workEvent g.zones .sent s.nextPtr
      (.recv r.localAddr r.sBuffer now outs)
    rw [← Kernel.run_append, List.append_assoc, ← ops_append] at hnew
    rw [he]
    exact hnew

end Datagram

/-! ### Closing works -/

section Closing

variable {s : Server} {k : Kernel} {log : List (Op Fd)} {f : DNSQureyWork → Bool}

/-- The server without the work at `p`, which has exited. -/
def without (sKey : Bytes) (p : WorkPtr) (w : DNSQureyWork) (s : Server) : Server :=
  { s with
    spConnectionManager := (exitConns w.vsDNSConnects s.spConnectionManager).1
    spWorkManager := s.spWorkManager.erase sKey
    heap := s.heap.erase p }

section Without

variable {sKey : Bytes} {p : WorkPtr} {w : DNSQureyWork}

theorem Owned.entries_without (h : Owned s k log) (hw : s.heap.lookup p = some w) (fd : Fd)
    (c : ConnPtr) : (without sKey p w s).spConnectionManager.lookup fd = some c ↔
      HasSocket (without sKey p w s) c fd := by
  refine lookup_exitConns.trans ?_
  show _ ↔ ∃ w', (s.heap.erase p).lookup c.work = some w' ∧ _
  rw [h.entries]
  constructor
  · rintro ⟨⟨w', hw', hs⟩, hne⟩
    have hc : c.work ≠ p := by
      intro hc
      rw [hc, hw] at hw'
      cases hw'
      exact hne _ hs
    exact ⟨w', by rw [AList.lookup_erase_ne hc, hw'], hs⟩
  · rintro ⟨w', hw', hs⟩
    obtain ⟨hc, hw'⟩ := lookup_erase_some hw'
    refine ⟨⟨w', hw', hs⟩, fun i hi => hc ?_⟩
    have hcp : c = ⟨p, i⟩ := h.same_conn ⟨w', hw', hs⟩ ⟨w, hw, hi⟩
    rw [hcp]

theorem Owned.stored_without (h : Owned s k log) (hp : s.spWorkManager.lookup sKey = some p)
    (hw : s.heap.lookup p = some w) (sKey' : Bytes) (p' : WorkPtr) :
    (without sKey p w s).spWorkManager.lookup sKey' = some p' ↔
      ∃ w', (without sKey p w s).heap.lookup p' = some w' ∧ w'.sKey = sKey' := by
  have hkey : w.sKey = sKey := by
    obtain ⟨w₁, hw₁, hkey⟩ := (h.stored sKey p).mp hp
    rw [hw] at hw₁
    cases hw₁
    exact hkey
  show (s.spWorkManager.erase sKey).lookup sKey' = some p' ↔
    ∃ w', (s.heap.erase p).lookup p' = some w' ∧ w'.sKey = sKey'
  constructor
  · intro hl
    obtain ⟨hne, hl⟩ := lookup_erase_some hl
    obtain ⟨w', hw', hk'⟩ := (h.stored sKey' p').mp hl
    have hp' : p' ≠ p := by
      rintro rfl
      rw [hw] at hw'
      cases hw'
      exact hne (hk'.symm.trans hkey)
    exact ⟨w', by rw [AList.lookup_erase_ne hp', hw'], hk'⟩
  · rintro ⟨w', hw', hk'⟩
    obtain ⟨hp', hw'⟩ := lookup_erase_some hw'
    have hl := (h.stored sKey' p').mpr ⟨w', hw', hk'⟩
    have hne : sKey' ≠ sKey := by
      rintro rfl
      rw [hp] at hl
      cases hl
      exact hp' rfl
    rw [AList.lookup_erase_ne hne]
    exact hl

theorem Owned.without (h : Owned s k log) (hp : s.spWorkManager.lookup sKey = some p)
    (hw : s.heap.lookup p = some w) : Owned (without sKey p w s)
      (k.run (exitConns w.vsDNSConnects s.spConnectionManager).2)
      (log ++ ops (exitConns w.vsDNSConnects s.spConnectionManager).2) := by
  have hfiled : ∀ i fd, socketAt w.vsDNSConnects i = some fd → fd ∈ s.spConnectionManager :=
    fun i fd hi => h.mem_of_hasSocket (c := ⟨p, i⟩) ⟨w, hw, hi⟩
  have hinj : ∀ i j fd, socketAt w.vsDNSConnects i = some fd →
      socketAt w.vsDNSConnects j = some fd → i = j := by
    intro i j fd hi hj
    have hc : (⟨p, i⟩ : ConnPtr) = ⟨p, j⟩ := h.same_conn ⟨w, hw, hi⟩ ⟨w, hw, hj⟩
    exact congrArg ConnPtr.nIndex hc
  exact ⟨h.entries_without hw, h.stored_without hp hw, fun p' hp' => h.next p' (AList.mem_erase.mp hp').2,
    held_exitConns h.held hfiled hinj⟩

end Without

/-- Nothing happens, or the work filed under the key is closed. -/
theorem closeIf_cases (f : DNSQureyWork → Bool) (sKey : Bytes) (s : Server) :
    (s.closeIf f sKey = (s, []) ∧ ∀ p w, s.spWorkManager.lookup sKey = some p →
      s.heap.lookup p = some w → f w = false) ∨
    ∃ p w, s.spWorkManager.lookup sKey = some p ∧ s.heap.lookup p = some w ∧ f w = true ∧
      s.closeIf f sKey = (without sKey p w s, (exitConns w.vsDNSConnects s.spConnectionManager).2) := by
  unfold Server.closeIf
  rcases hp : s.spWorkManager.lookup sKey with _ | p <;> dsimp only
  · exact Or.inl ⟨rfl, fun p w hp' => by cases hp'⟩
  rcases hw : s.heap.lookup p with _ | w <;> dsimp only
  · refine Or.inl ⟨rfl, fun p' w hp' hw' => ?_⟩
    cases hp'
    cases hw.symm.trans hw'
  split_ifs with hf
  · exact Or.inr ⟨p, w, rfl, hw, hf, rfl⟩
  · refine Or.inl ⟨rfl, fun p' w' hp' hw' => ?_⟩
    cases hp'
    cases hw.symm.trans hw'
    exact Bool.eq_false_iff.mpr hf

theorem Owned.closeIf (h : Owned s k log) (sKey : Bytes) : Owned (s.closeIf f sKey).1
    (k.run (s.closeIf f sKey).2) (log ++ ops (s.closeIf f sKey).2) := by
  rcases closeIf_cases f sKey s with ⟨he, -⟩ | ⟨p, w, hp, hw, -, he⟩ <;> rw [he]
  · rw [show ops [] = [] from rfl, List.append_nil]
    exact h
  · exact h.without hp hw

theorem Owned.closeEach (h : Owned s k log) (keys : List Bytes) : Owned (s.closeEach f keys).1
    (k.run (s.closeEach f keys).2) (log ++ ops (s.closeEach f keys).2) := by
  induction keys generalizing s k log with
  | nil =>
    rw [show ops (s.closeEach f []).2 = [] from rfl, List.append_nil]
    exact h
  | cons sKey keys ih =>
    have hnext := ih (h.closeIf (f := f) sKey)
    rw [← Kernel.run_append, List.append_assoc, ← ops_append] at hnext
    exact hnext

theorem mem_closeIf {sKey : Bytes} {x : Effect} (h : x ∈ (s.closeIf f sKey).2) :
    ∃ p w i fd, s.spWorkManager.lookup sKey = some p ∧ s.heap.lookup p = some w ∧
      (s.closeIf f sKey).1.heap = s.heap.erase p ∧ socketAt w.vsDNSConnects i = some fd ∧
      (x = .epollDel fd ∨ x = .close fd) := by
  rcases closeIf_cases f sKey s with ⟨he, -⟩ | ⟨p, w, hp, hw, -, he⟩ <;> rw [he] at h
  · cases h
  · obtain ⟨i, fd, hi, hx⟩ := mem_exitConns h
    exact ⟨p, w, i, fd, hp, hw, by rw [he]; rfl, hi, hx⟩

theorem mem_closeEach {keys : List Bytes} {x : Effect} (h : x ∈ (s.closeEach f keys).2) :
    ∃ fd, x = .epollDel fd ∨ x = .close fd := by
  induction keys generalizing s with
  | nil => cases h
  | cons sKey keys ih =>
    rcases List.mem_append.mp h with h | h
    · obtain ⟨-, -, -, fd, -, -, -, -, hx⟩ := mem_closeIf h
      exact ⟨fd, hx⟩
    · exact ih h

/-- **What is left**: the works with another key, and those that `f` does not close. -/
theorem lookup_heap_closeIf (h : Owned s k log) {sKey : Bytes} {p : WorkPtr} {w : DNSQureyWork} :
    (s.closeIf f sKey).1.heap.lookup p = some w ↔
      s.heap.lookup p = some w ∧ (w.sKey = sKey → f w = false) := by
  rcases closeIf_cases f sKey s with ⟨he, hno⟩ | ⟨p₀, w₀, hp, hw₀, hf, he⟩ <;> rw [he]
  · refine (and_iff_left_of_imp fun hw hkey => ?_).symm
    exact hno p w ((h.stored sKey p).mpr ⟨w, hw, hkey⟩) hw
  constructor
  · intro hw
    obtain ⟨hne, hw⟩ := lookup_erase_some hw
    refine ⟨hw, fun hkey => ?_⟩
    have hp' := (h.stored sKey p).mpr ⟨w, hw, hkey⟩
    exact absurd (Option.some.inj (hp'.symm.trans hp)) hne
  · rintro ⟨hw, hkey⟩
    have hne : p ≠ p₀ := by
      rintro rfl
      obtain rfl := Option.some.inj (hw.symm.trans hw₀)
      obtain ⟨w', hw', hkey'⟩ := (h.stored sKey p).mp hp
      obtain rfl := Option.some.inj (hw.symm.trans hw')
      rw [hkey hkey'] at hf
      cases hf
    exact (AList.lookup_erase_ne hne).trans hw

theorem lookup_heap_closeEach (h : Owned s k log) {keys : List Bytes} {p : WorkPtr} {w : DNSQureyWork} :
    (s.closeEach f keys).1.heap.lookup p = some w ↔
      s.heap.lookup p = some w ∧ (w.sKey ∈ keys → f w = false) := by
  induction keys generalizing s k log with
  | nil => exact (and_iff_left fun hkey => absurd hkey List.not_mem_nil).symm
  | cons sKey keys ih =>
    refine (ih (h.closeIf (f := f) sKey)).trans ?_
    rw [lookup_heap_closeIf h, and_assoc, ← or_imp, ← List.mem_cons]

theorem server_closeEach (f : DNSQureyWork → Bool) (keys : List Bytes) (s : Server) :
    ∃ conns works heap, (s.closeEach f keys).1 =
      { s with spConnectionManager := conns, spWorkManager := works, heap := heap } := by
  have hone : ∀ sKey (s : Server), ∃ conns works heap, (s.closeIf f sKey).1 =
      { s with spConnectionManager := conns, spWorkManager := works, heap := heap } := by
    intro sKey s
    rcases closeIf_cases f sKey s with ⟨he, -⟩ | ⟨p, w, -, -, -, he⟩ <;> rw [he]
    · exact ⟨_, _, _, rfl⟩
    · exact ⟨_, _, _, rfl⟩
  induction keys generalizing s with
  | nil => exact ⟨_, _, _, rfl⟩
  | cons sKey keys ih =>
    obtain ⟨conns, works, heap, hs⟩ := hone sKey s
    obtain ⟨conns', works', heap', hs'⟩ := ih (s.closeIf f sKey).1
    refine ⟨conns', works', heap', ?_⟩
    show ((s.closeIf f sKey).1.closeEach f keys).1 = _
    rw [hs', hs]

theorem closeEach_true (h : Owned s k log) {keys : List Bytes} {sKey : Bytes}
    (hk : sKey ∈ keys ∨ s.spWorkManager.lookup sKey = none) :
    (s.closeEach (fun _ => true) keys).1.spWorkManager.lookup sKey = none := by
  refine Option.eq_none_iff_forall_ne_some.mpr fun p hp => ?_
  obtain ⟨w, hw, rfl⟩ := ((h.closeEach keys).stored _ p).mp hp
  obtain ⟨hw, hf⟩ := (lookup_heap_closeEach h).mp hw
  rcases hk with hk | hk
  · cases hf hk
  · cases hk.symm.trans ((h.stored _ p).mpr ⟨w, hw, rfl⟩)

end Closing

/-! ### The log -/

section Log

variable {sKey : Bytes} {f : DNSQureyWork → Bool} {keys : List Bytes} {s : Server}

theorem initFailed_notMem_workEvent {zones : Zones} {o : SendOutcome} {p : WorkPtr}
    {e : Work.Query.Event} : .initFailed sKey ∉ (s.workEvent zones o p e).2 := by
  intro hx
  obtain ⟨w, c, -, -, hp⟩ := mem_workEvent hx
  cases hp

theorem initFailed_notMem_session {zones : Zones} {o : SendOutcome} {fd : Fd}
    {e : ℕ → Work.Query.Event} : .initFailed sKey ∉ (s.session zones o fd e).2 := by
  intro hx
  rcases session_cases zones o fd e s with ⟨-, he⟩ | ⟨c, -, he⟩ <;> rw [he] at hx
  · cases List.mem_singleton.mp hx
  · exact initFailed_notMem_workEvent hx

theorem initFailed_notMem_closeEach : .initFailed sKey ∉ (s.closeEach f keys).2 := by
  intro hx
  obtain ⟨fd, hx | hx⟩ := mem_closeEach hx
  all_goals cases hx

end Log

/-! ### The main loop -/

section Main

variable {g : Setup} {s : Sys} {log : List (Op Fd)}

theorem owned_step (h : Owned s.server s.kernel log) {e : Event} (hl : LawfulStep g s e) :
    Owned (step g e s).1.server (step g e s).1.kernel (log ++ ops (step g e s).2) := by
  have hsession : ∀ o fd e', Owned (s.server.session g.zones o fd e').1
      (s.kernel.run (s.server.session g.zones o fd e').2)
      (log ++ ops (s.server.session g.zones o fd e').2) := by
    intro o fd e'
    rcases session_cases g.zones o fd e' s.server with ⟨-, he⟩ | ⟨c, -, he⟩ <;> rw [he]
    · have hq : Quiet [.epollDel fd] := List.forall_mem_singleton.mpr rfl
      exact ⟨h.entries, h.stored, h.next, h.held.quiet hq⟩
    · exact h.workEvent _ _ _ _
  cases e with
  | listenRead r now conn outs => exact h.onListenRead hl
  | listenWrite outs =>
    have hq : Quiet (s.server.onListenWrite outs).2 := by
      intro x hx
      rcases mem_onListenWrite hx with ⟨ra, d, -, rfl⟩ | ⟨b, rfl⟩ <;> rfl
    exact ⟨h.entries, h.stored, h.next, h.held.quiet hq⟩
  | upstreamError fd => exact hsession _ _ _
  | upstreamRead fd d o => exact hsession _ _ _
  | upstreamWrite fd outs => exact hsession _ _ _
  | closeIdle =>
    have hc := h.closeEach (f := (·.isIdle)) s.server.ssIdle
    exact ⟨hc.entries, hc.stored, hc.next, hc.held⟩
  | clearTimeout now => exact h.closeEach _
  | exitAndClear =>
    have hc := h.closeEach (f := fun _ => true) s.server.spWorkManager.keys
    refine ⟨hc.entries, fun sKey p => ?_, hc.next, hc.held⟩
    have hnone : (s.server.closeEach (fun _ => true) s.server.spWorkManager.keys).1.spWorkManager.lookup
        sKey = none := by
      refine closeEach_true h ?_
      by_cases hk : sKey ∈ s.server.spWorkManager
      · exact Or.inl (AList.mem_keys.mp hk)
      · exact Or.inr (AList.lookup_eq_none.mpr hk)
    refine Iff.trans ?_ (hc.stored sKey p)
    rw [hnone]
    exact Iff.rfl

theorem initFailed_notMem (h : Owned s.server s.kernel log) {e : Event} (hl : LawfulStep g s e)
    (sKey : Bytes) : .initFailed sKey ∉ (step g e s).2 := by
  cases e with
  | listenRead r now conn outs =>
    show _ ∉ (s.server.onListenRead g r now conn outs).2
    rcases onListenRead_cases h hl with ⟨-, he⟩ | ⟨-, p, -, he⟩ | ⟨-, -, -, he⟩ <;> rw [he]
    · exact List.not_mem_nil
    · exact initFailed_notMem_workEvent
    · intro hx
      rcases List.mem_append.mp hx with hx | hx
      · obtain ⟨fd, hx | hx | hx⟩ := mem_initLoop hx
        all_goals cases hx
      · exact initFailed_notMem_workEvent hx
  | listenWrite outs =>
    intro hx
    rcases mem_onListenWrite hx with ⟨ra, d, -, hx⟩ | ⟨b, hx⟩ <;> cases hx
  | upstreamError fd => exact initFailed_notMem_session
  | upstreamRead fd d o => exact initFailed_notMem_session
  | upstreamWrite fd outs => exact initFailed_notMem_session
  | closeIdle => exact @initFailed_notMem_closeEach _ (·.isIdle) _ _
  | clearTimeout now => exact initFailed_notMem_closeEach
  | exitAndClear => exact @initFailed_notMem_closeEach _ (fun _ => true) _ _

theorem owned_run {fdListen : Fd} {kernel : Kernel} {tr : List (Entry Sys Event (List Effect))}
    (h : Run (step g) (LawfulStep g) (Sys.start fdListen kernel) tr s) :
    Owned s.server s.kernel (ops (effects tr)) := by
  refine Run.inv (P := fun tr s => Owned s.server s.kernel (ops (effects tr))) ?_ ?_ h
  · exact owned_start fdListen kernel
  · intro tr s e hs hok
    show Owned _ _ (ops (effects tr ++ _))
    rw [ops_append]
    exact owned_step hs hok

theorem exitAndClear_empty (h : Owned s.server s.kernel log) (hl : LawfulStep g s .exitAndClear) :
    (step g .exitAndClear s).1.server.spConnectionManager = ∅ := by
  have ho := owned_step h hl
  refine eq_empty_of_lookup fun fd => Option.eq_none_iff_forall_ne_some.mpr fun c hc => ?_
  obtain ⟨w, hw, -⟩ := (ho.entries fd c).mp hc
  cases (ho.stored w.sKey c.work).mpr ⟨w, hw, rfl⟩

/-- **Sockets have exactly one owner.** In every run in which the kernel hands out no descriptor that is
open, `ConnectionManager` maps a descriptor to a connection exactly if it is the socket of that connection
of a work that `WorkManager` has, and then it is open; no work fails to be set up; every descriptor is
closed exactly once, unless `ConnectionManager` still has it; and after `ExitAndClear` it has none. -/
theorem sockets_exact {fdListen : Fd} {kernel : Kernel} {tr : List (Entry Sys Event (List Effect))}
    (h : Run (step g) (LawfulStep g) (Sys.start fdListen kernel) tr s) :
    (∀ fd c, s.server.spConnectionManager.lookup fd = some c ↔
      ∃ sKey, s.server.spWorkManager.lookup sKey = some c.work ∧ HasSocket s.server c fd) ∧
    (∀ fd ∈ s.server.spConnectionManager, fd ∈ s.kernel.opened) ∧
    (∀ x ∈ tr, ∀ sKey, .initFailed sKey ∉ x.out) ∧
    Balanced {fd | fd ∈ s.server.spConnectionManager} (ops (effects tr)) ∧
    ∀ x tr', tr = x :: tr' → x.event = .exitAndClear →
      s.server.spConnectionManager = ∅ ∧ Balanced ∅ (ops (effects tr)) := by
  have ho := owned_run h
  refine ⟨fun fd c => ?_, ho.held.opened, fun x hx sKey => ?_, ho.held.balanced, ?_⟩
  · rw [ho.entries]
    constructor
    · rintro ⟨w, hw, hs⟩
      exact ⟨w.sKey, (ho.stored _ _).mpr ⟨w, hw, rfl⟩, w, hw, hs⟩
    · rintro ⟨-, -, hs⟩
      exact hs
  · obtain ⟨tr', tr₀, rfl⟩ := List.append_of_mem hx
    obtain ⟨hrun, hok, hout⟩ := h.at_entry rfl
    rw [hout]
    exact initFailed_notMem (owned_run hrun) hok sKey
  · intro x tr' htr hx
    have hempty : s.server.spConnectionManager = ∅ := by
      cases h with
      | start => cases htr
      | next e hrun hok =>
        cases htr
        cases hx
        exact exitAndClear_empty (owned_run hrun) hok
    have hset : {fd : Fd | fd ∈ s.server.spConnectionManager} = ∅ := by
      rw [hempty]
      exact Set.eq_empty_iff_forall_notMem.mpr fun fd => AList.notMem_empty fd
    exact ⟨hempty, hset ▸ ho.held.balanced⟩

end Main

/-! ### A run -/

/-- One zone, and addresses written as nothing but their port. -/
def oneZone : Setup := ⟨[{}], ⟨fun _ => none, fun _ => none, fun _ => [], fun _ => []⟩⟩

/-- Standard input and output, the log, the listening socket and the epoll set. -/
def kernel0 : Kernel := { opened := {0, 1, 2, 3, 4} }

/-- A client's datagram. -/
def datagram (sBuffer : Bytes) : Received := ⟨.inet 0x0A000002 5353, none, sBuffer⟩

/-- A query and its answer, after which the work is closed; the next query gets the same descriptor, and
the server exits. -/
def twoQueries : List Event :=
  [.listenRead (datagram (Work.Steps.query 5 [97] 1)) 0 (fun _ => .connected 5) fun _ => .sent,
    .upstreamRead 5 (Work.Steps.emptyReply 5 [97] 1) .sent, .closeIdle,
    .listenRead (datagram (Work.Steps.query 6 [97] 1)) 9 (fun _ => .connected 5) fun _ => .sent,
    .exitAndClear]

/-- Before the answer the socket is filed, open, and the one of the stored work; after the exit nothing is. -/
theorem sockets_exact_twoQueries :
    (∃ sKey, (exec (step oneZone) (twoQueries.take 1) [] (Sys.start 3 kernel0)).2.server.spWorkManager.lookup
        sKey = some 0 ∧
      HasSocket (exec (step oneZone) (twoQueries.take 1) [] (Sys.start 3 kernel0)).2.server ⟨0, 0⟩ 5) ∧
    5 ∈ (exec (step oneZone) (twoQueries.take 1) [] (Sys.start 3 kernel0)).2.kernel.opened ∧
    (exec (step oneZone) twoQueries [] (Sys.start 3 kernel0)).2.server.spConnectionManager = ∅ ∧
      Balanced ∅ (ops (effects (exec (step oneZone) twoQueries [] (Sys.start 3 kernel0)).1)) := by
  have hfirst := sockets_exact
    (Run.start.exec (show Allowed (step oneZone) (LawfulStep oneZone) (twoQueries.take 1) (Sys.start 3 kernel0)
      by decide +kernel))
  exact ⟨(hfirst.1 5 ⟨0, 0⟩).mp (by decide +kernel), hfirst.2.1 5 (by decide +kernel),
    (sockets_exact (Run.start.exec (by decide +kernel))).2.2.2.2 _ _ rfl rfl⟩

end DnsMultiZone.MainLoop.Ownership
