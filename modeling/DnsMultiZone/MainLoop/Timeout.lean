import DnsMultiZone.MainLoop.Clients

/-! # Timeouts

A work keeps the time of the last datagram of its client, whatever its ID is, and `ClearTimeout` closes the
works whose client has been silent for more than `DEF_TIME_OUT`. So a pending query stays as long as its
client sends others.

* `touched_run`: the time that a work keeps.
* `works_time_out`: what `ClearTimeout` leaves.
* `busy_client`: a query that has been pending for longer. -/

namespace DnsMultiZone.MainLoop.Timeout

open DnsMultiZone.Lib.BigEndian DnsMultiZone.Lib.Assoc DnsMultiZone.Lib.Runs DnsMultiZone.Lib.Handles
open DnsMultiZone.Config.ConfigType DnsMultiZone.Work.Connect
open DnsMultiZone.Work.Query hiding Event step
open DnsMultiZone.Work.Steps
open DnsMultiZone.MainLoop.Descriptors DnsMultiZone.MainLoop.Dispatch DnsMultiZone.MainLoop.Ownership
open DnsMultiZone.MainLoop.Works DnsMultiZone.MainLoop.Clients

/-- The time that an event reads from the clock. -/
def clockOf : Event → Option ℕ
  | .listenRead r now _ _ => if r.sBuffer = [] then none else some now
  | .clearTimeout llNow => some llNow
  | _ => none

/-- **A monotonic clock**: no time is before one that was read earlier, and all are
`unsigned long long`. -/
structure Monotonic (tr : List (Entry Sys Event (List Effect))) : Prop where
  sorted : tr.Pairwise fun x y => ∀ t ∈ clockOf x.event, ∀ t₀ ∈ clockOf y.event, t₀ ≤ t
  fits : ∀ x ∈ tr, ∀ t ∈ clockOf x.event, t < 2 ^ 64

instance (tr : List (Entry Sys Event (List Effect))) : Decidable (Monotonic tr) :=
  decidable_of_iff (tr.Pairwise (fun x y => ∀ t ∈ clockOf x.event, ∀ t₀ ∈ clockOf y.event, t₀ ≤ t) ∧
    ∀ x ∈ tr, ∀ t ∈ clockOf x.event, t < 2 ^ 64) ⟨fun h => ⟨h.1, h.2⟩, fun h => ⟨h.sorted, h.fits⟩⟩

/-- A datagram is handed to the work at `p` at the time `t`. -/
def HandedAt (g : Setup) (x : Entry Sys Event (List Effect)) (p : WorkPtr) (t : ℕ) : Prop :=
  (∃ r, Handed g x.before x.event p r) ∧ t ∈ clockOf x.event

/-- **The invariant**: a work keeps the time of a datagram that was handed to it. -/
def Touched (g : Setup) (tr : List (Entry Sys Event (List Effect))) (s : Server) : Prop :=
  ∀ p w, s.heap.lookup p = some w → ∃ x ∈ tr, HandedAt g x p w.llLastTouch

variable {g : Setup} {s : Sys} {log : List (Op Fd)} {e : Event} {fdListen : Fd} {kernel : Kernel}
  {tr : List (Entry Sys Event (List Effect))}

theorem clockOf_listenRead {r : Received} {now : ℕ} {conn : ℕ → ConnectOutcome} {outs : ℕ → SendOutcome}
    (hb : r.sBuffer ≠ []) : clockOf (.listenRead r now conn outs) = some now := if_neg hb

theorem touched_step (ho : Owned s.server s.kernel log) (hl : LawfulStep g s e)
    (h : Touched g tr s.server) :
    Touched g (⟨s, e, (step g e s).2⟩ :: tr) (step g e s).1.server := by
  intro p w hw
  have hold : ∀ {w₀}, s.server.heap.lookup p = some w₀ →
      ∃ x ∈ ⟨s, e, (step g e s).2⟩ :: tr, HandedAt g x p w₀.llLastTouch := by
    intro w₀ hw₀
    obtain ⟨x, hx, hat⟩ := h p w₀ hw₀
    exact ⟨x, List.mem_cons_of_mem _ hx, hat⟩
  cases work_step ho hl hw with
  | kept hw₀ => exact hold hw₀
  | @upstream _ e' w₀ hw₀ he =>
    have htouch : (Work.Query.step g.zones e' w₀).1.llLastTouch = w₀.llLastTouch := by
      rw [llLastTouch_step]
      rcases e' with ⟨l, d, now, outs⟩ | _ | _ | _
      · exact absurd rfl (he l d now outs)
      all_goals rfl
    rw [htouch]
    exact hold hw₀
  | @datagram r now conn outs w₀ hw₀ hb hp =>
    refine ⟨_, List.mem_cons_self, ⟨r, handed_stored ho hl hb hp⟩, ?_⟩
    rw [llLastTouch_step]
    exact clockOf_listenRead hb
  | @client r now conn outs hp hb hkey hi =>
    subst hp
    refine ⟨_, List.mem_cons_self, ⟨r, handed_new ho hl hb hkey⟩, ?_⟩
    rw [llLastTouch_step]
    exact clockOf_listenRead hb

theorem touched_run (h : Run (step g) (LawfulStep g) (Sys.start fdListen kernel) tr s) :
    Touched g tr s.server := by
  induction h with
  | start => exact fun p w hw => by cases hw
  | next e hrun hok ih => exact touched_step (owned_run hrun) hok ih

theorem timedOut_eq_false {t : ℕ} {w : DNSQureyWork} (hle : w.llLastTouch ≤ t) (ht : t < 2 ^ 64) :
    timedOut t w = false ↔ t ≤ w.llLastTouch + 10000 := by
  unfold timedOut
  rw [decide_eq_false_iff_not]
  omega

/-- **Silent clients time out.** In every run with a monotonic clock, after every `ClearTimeout` each work
that is stored, whatever is pending in it, has been handed a datagram of its client within
`DEF_TIME_OUT`. -/
theorem works_time_out (h : Run (step g) (LawfulStep g) (Sys.start fdListen kernel) tr s)
    (hm : Monotonic tr) {tr₁ tr₀ : List (Entry Sys Event (List Effect))}
    {x : Entry Sys Event (List Effect)} (htr : tr = tr₁ ++ x :: tr₀) {t : ℕ}
    (hx : x.event = .clearTimeout t) {sKey : Bytes} {p : WorkPtr}
    (hp : (step g x.event x.before).1.server.spWorkManager.lookup sKey = some p) :
    ∃ y ∈ tr₀, ∃ t₀, HandedAt g y p t₀ ∧ t ≤ t₀ + 10000 := by
  subst htr
  obtain ⟨hrun, hok, -⟩ := h.at_entry rfl
  have ho := owned_run hrun
  obtain ⟨w, hw, -⟩ := ((owned_step ho hok).stored sKey p).mp hp
  rw [hx] at hw
  obtain ⟨hw, hkept⟩ := (lookup_heap_closeEach ho).mp hw
  have hkey : w.sKey ∈ x.before.server.spWorkManager.keys :=
    AList.mem_keys.mp (mem_of_lookup ((ho.stored _ p).mpr ⟨w, hw, rfl⟩))
  obtain ⟨y, hy, hat⟩ := touched_run hrun p w hw
  have hclock : t ∈ clockOf x.event := by
    rw [hx]
    exact rfl
  have hle : w.llLastTouch ≤ t :=
    (List.pairwise_cons.mp (List.pairwise_append.mp hm.sorted).2.1).1 y hy t hclock _ hat.2
  have ht := hm.fits x (List.mem_append_right _ List.mem_cons_self) t hclock
  exact ⟨y, hy, _, hat, (timedOut_eq_false hle ht).mp (hkept hkey)⟩

/-- A query, another one six seconds later, and `ClearTimeout` after twelve seconds. -/
def busyClient : List Event :=
  [.listenRead (datagram (query 5 [97] 1)) 0 (fun _ => .connected 5) fun _ => .sent,
    .listenRead (datagram (query 6 [97] 1)) 6000 (fun _ => .connected 6) fun _ => .sent,
    .clearTimeout 12000]

theorem run_busyClient : Run (step oneZone) (LawfulStep oneZone) (Sys.start 3 kernel0)
    (exec (step oneZone) busyClient [] (Sys.start 3 kernel0)).1
    (exec (step oneZone) busyClient [] (Sys.start 3 kernel0)).2 :=
  Run.start.exec (by decide +kernel)

theorem monotonic_busyClient :
    Monotonic (exec (step oneZone) busyClient [] (Sys.start 3 kernel0)).1 := by decide +kernel

theorem works_time_out_busyClient : ∃ y t₀, HandedAt oneZone y 0 t₀ ∧ 12000 ≤ t₀ + 10000 := by
  have hp : (exec (step oneZone) busyClient [] (Sys.start 3 kernel0)).2.server.spWorkManager.lookup
      (addrToString oneZone.inet (.inet 0x0A000002 5353)) = some 0 := by decide +kernel
  obtain ⟨y, -, t₀, hy⟩ := works_time_out run_busyClient monotonic_busyClient
    (show (exec (step oneZone) busyClient [] (Sys.start 3 kernel0)).1 = [] ++ _ :: _ from rfl) rfl hp
  exact ⟨y, t₀, hy⟩

/-- The first query is pending after twelve seconds, since its client has sent another one. -/
theorem busy_client : ¬ ∀ (g : Setup) (fdListen : Fd) (kernel : Kernel)
    (tr : List (Entry Sys Event (List Effect))) (s : Sys),
    Run (step g) (LawfulStep g) (Sys.start fdListen kernel) tr s → Monotonic tr →
    ∀ tr₁ x tr₀, tr = tr₁ ++ x :: tr₀ → ∀ t, x.event = .clearTimeout t → ∀ sKey p w n,
      (step g x.event x.before).1.server.spWorkManager.lookup sKey = some p →
      (step g x.event x.before).1.server.heap.lookup p = some w → pending w n ≠ none →
      ∃ y ∈ tr₀, ∃ r t₀, Handed g y.before y.event p r ∧ IsQuery n r ∧ t₀ ∈ clockOf y.event ∧
        t ≤ t₀ + 10000 := by
  intro h
  have hp : (exec (step oneZone) busyClient [] (Sys.start 3 kernel0)).2.server.spWorkManager.lookup
      (addrToString oneZone.inet (.inet 0x0A000002 5353)) = some 0 := by decide +kernel
  have hpending : ((exec (step oneZone) busyClient [] (Sys.start 3 kernel0)).2.server.heap.lookup
      0).any (fun w => (pending w 5).isSome) = true := by decide +kernel
  obtain ⟨w, hw, hn⟩ := (Option.any_eq_true _ _).mp hpending
  obtain ⟨y, hy, r, t₀, ⟨⟨now, conn, outs, he⟩, -⟩, hq, ht₀, hle⟩ := h _ _ _ _ _ run_busyClient
    monotonic_busyClient [] _ _ rfl _ rfl _ 0 w 5 hp hw (Option.isSome_iff_ne_none.mp hn)
  rcases List.mem_pair.mp hy with rfl | rfl
  · cases he
    exact absurd hq.2 (by decide +kernel)
  · cases he
    cases ht₀
    exact absurd hle (by decide)

end DnsMultiZone.MainLoop.Timeout
