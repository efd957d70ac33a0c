import DnsMultiZone.Work.Answers

/-! # Zones that are asked

A zone that has no list of the family is not asked for `A` or `AAAA`, unless it is the first. This is
looked at when a query is created, with the type that `ParseRequestA` returns for its datagram. That is not
the type of every question: of several questions, or of a name that ends in a pointer, no type is read, and
every zone is asked. A datagram that comes under a pending ID is passed on to the zones still waited for,
whatever its type; so a zone that takes part in the first question may be asked one it does not take part in.

* `asking_step_iff`: when an event asks only zones that take part; `asked_take_part`: the runs of such
  events.
* `asked_without_list`: two questions under one ID. -/

namespace DnsMultiZone.Work.Asking

open DnsMultiZone.Lib.BigEndian DnsMultiZone.Lib.Assoc DnsMultiZone.Lib.Runs
open DnsMultiZone.Config.Address DnsMultiZone.Config.ConfigType
open DnsMultiZone.Rfc1035.Parse DnsMultiZone.Rfc1035.Questions
open DnsMultiZone.Work.Connect DnsMultiZone.Work.Query DnsMultiZone.Work.Scan DnsMultiZone.Work.Steps
open DnsMultiZone.Work.Answers

variable {zones : Zones} {w w₀ : DNSQureyWork} {tr : Trace} {d x : Bytes} {i : ℕ} {c : DNSConnect}

/-- Zone `i` takes part in every question of a datagram, or is the first. -/
def TakesPartAt (zones : Zones) (i : ℕ) (d : Bytes) : Prop :=
  i = 0 ∨ ∀ q ∈ questions d, zoneTakesPart (zoneAt zones i) q.uQType = true

instance (zones : Zones) (i : ℕ) (d : Bytes) : Decidable (TakesPartAt zones i d) := by
  unfold TakesPartAt; infer_instance

theorem TakesPartAt.lists (h : TakesPartAt zones i d) (hi : i ≠ 0) {q : Question} (hq : q ∈ questions d) :
    (q.uQType = typeA → (zoneAt zones i).bHasV4 = true) ∧
      (q.uQType = typeAAAA → (zoneAt zones i).bHasV6 = true) := by
  have ht := h.resolve_left hi q hq
  constructor
  · intro hA
    rw [hA] at ht
    exact ht
  · intro hAAAA
    rw [hAAAA] at ht
    exact ht

/-- No two connections have one socket. -/
def OwnSockets (w : DNSQureyWork) : Prop :=
  ∀ (i j : ℕ) (c c' : DNSConnect) (fd : Fd), w.vsDNSConnects[i]? = some c →
    w.vsDNSConnects[j]? = some c' → c.fdSock = some fd → c'.fdSock = some fd → i = j

/-- Every datagram sent on the socket of a zone is one it takes part in. -/
def SentRightly (zones : Zones) (w : DNSQureyWork) (calls : List Call) : Prop :=
  ∀ fd x, Call.send fd x ∈ calls → ∀ (i : ℕ) (c : DNSConnect), w.vsDNSConnects[i]? = some c →
    c.fdSock = some fd → TakesPartAt zones i x

/-- Every datagram queued for a zone is one it takes part in. -/
def QueuedRightly (zones : Zones) (w : DNSQureyWork) : Prop :=
  ∀ (i : ℕ) (c : DNSConnect) (x : Bytes), w.vsDNSConnects[i]? = some c → x ∈ c.lsWriteQueue →
    TakesPartAt zones i x

/-- **The events that ask only zones that take part**: of the zones whose connections accept a datagram, those
still waited for take part in its questions if its ID is pending; and all of them if it is not, unless it asks
one question by a name without a pointer. -/
def AsksRightly (zones : Zones) (w : DNSQureyWork) : Event → Prop
  | .recv _ d _ outs => 2 ≤ d.length →
    match pending w (queryID d) with
    | some wi => ∀ i, stateAt wi.vsDNSQueryResultItems i = some .wait → AcceptsAt w outs i →
        TakesPartAt zones i d
    | none => Plain d ∨ ∀ i, AcceptsAt w outs i → TakesPartAt zones i d
  | _ => True

instance (zones : Zones) (w : DNSQureyWork) : ∀ e : Event, Decidable (AsksRightly zones w e)
  | .recv _ d _ outs =>
    match h : pending w (queryID d) with
    | some wi => decidable_of_iff (2 ≤ d.length → ∀ i < w.vsDNSConnects.length,
          stateAt wi.vsDNSQueryResultItems i = some .wait → AcceptsAt w outs i → TakesPartAt zones i d)
        (by
          simp only [AsksRightly, h]
          exact ⟨fun hk hl i hw ha => hk hl i ha.lt hw ha, fun hk hl i _ hw ha => hk hl i hw ha⟩)
    | none => decidable_of_iff (2 ≤ d.length → Plain d ∨ ∀ i < w.vsDNSConnects.length,
          AcceptsAt w outs i → TakesPartAt zones i d)
        (by
          simp only [AsksRightly, h]
          exact imp_congr_right fun _ => or_congr_right
            ⟨fun hk i ha => hk i ha.lt ha, fun hk i _ ha => hk i ha⟩)
  | .read _ _ | .disconnect _ | .write _ _ => isTrue trivial

/-- The zones that are asked when a query is created take part exactly when it is plain or all that accept
it do. -/
theorem isAsked_takesPart_iff {outs : ℕ → SendOutcome} :
    (∀ i, IsAsked zones w d outs i → TakesPartAt zones i d) ↔
      Plain d ∨ ∀ i, AcceptsAt w outs i → TakesPartAt zones i d := by
  by_cases hp : Plain d
  · refine iff_of_true ?_ (Or.inl hp)
    rintro i ⟨hi, -⟩
    refine hi.imp id fun ht q hq => ?_
    rwa [← uQType_of_plain hp hq]
  · rw [or_iff_right hp]
    refine forall_congr' fun i => imp_congr_left ?_
    unfold IsAsked queryType
    rw [uQType_of_not_plain hp]
    -- type 0 is asked of every zone
    exact and_iff_right (Or.inr rfl)

theorem OwnSockets.step (h : OwnSockets w) (e : Event) : OwnSockets (step zones e w).1 := by
  intro i j c c' fd hc hc' hf hf'
  obtain ⟨c₀, hc₀, hk⟩ := (conns_step zones e w).2 i c hc
  obtain ⟨c₁, hc₁, hk'⟩ := (conns_step zones e w).2 j c' hc'
  exact h i j c₀ c₁ fd hc₀ hc₁ (hk.fdSock ▸ hf) (hk'.fdSock ▸ hf')

/-! ### One send -/

theorem sendOrError_of_not_accepts {o : SendOutcome} {s : EnumState} (h : ¬ c.Accepts o) :
    sendOrError o d s c = ⟨.error, c, []⟩ := by
  unfold sendOrError DNSConnect.sendDNSQueryBuffer
  unfold DNSConnect.Accepts at h
  rcases hf : c.fdSock with _ | fd
  · rfl
  · have hq : c.lsWriteQueue = [] ∧ o = .failed := by
      rw [hf] at h
      simpa using h
    simp [hq.1, hq.2]

theorem sendOrError_of_accepts {o : SendOutcome} {s : EnumState} (h : c.Accepts o) :
    ∃ fd, c.fdSock = some fd ∧ (.send fd d ∈ (sendOrError o d s c).calls ∨
      d ∈ (sendOrError o d s c).conn.lsWriteQueue) := by
  obtain ⟨fd, hf⟩ := Option.ne_none_iff_exists'.mp h.1
  refine ⟨fd, hf, ?_⟩
  unfold sendOrError DNSConnect.sendDNSQueryBuffer
  rw [hf]
  dsimp only
  split_ifs with hs hn
  · exact Or.inl (List.mem_singleton_self _)
  · exact absurd hn.2 (h.2.resolve_left fun hq => hq hn.1)
  · exact Or.inr (List.mem_append_right _ (List.mem_singleton_self _))

/-- What becomes of the connection of zone `i`: it is left alone, or is sent a datagram the zone takes
part in. -/
inductive AskedRightly (zones : Zones) (d : Bytes) (i : ℕ) (c : DNSConnect) : Asked → Prop
  | left (s : EnumState) : AskedRightly zones d i c ⟨s, c, []⟩
  | sent (o : SendOutcome) (h : TakesPartAt zones i d) :
      AskedRightly zones d i c (sendOrError o d .wait c)

theorem askedRightly_askZone {outs : ℕ → SendOutcome} (hc : w.vsDNSConnects[i]? = some c)
    (h : ∀ i, IsAsked zones w d outs i → TakesPartAt zones i d) :
    AskedRightly zones d i c (askZone zones (queryType d) d outs i c) := by
  unfold askZone
  split_ifs with hi
  · exact .left _
  · by_cases hacc : c.Accepts (outs i)
    · refine .sent _ (h i ⟨?_, c, hc, hacc⟩)
      by_contra hn
      exact hi (not_or.mp hn)
    · rw [sendOrError_of_not_accepts hacc]
      exact .left _

/-! ### One event -/

theorem rightly_of_asked (hq : QueuedRightly zones w) (hs : OwnSockets w) {asked : List Asked}
    (hget : ∀ (i : ℕ) (a : Asked), asked[i]? = some a →
      ∃ c, w.vsDNSConnects[i]? = some c ∧ AskedRightly zones d i c a) :
    SentRightly zones w (asked.flatMap (·.calls)) ∧
      ∀ w' : DNSQureyWork, w'.vsDNSConnects = asked.map (·.conn) → QueuedRightly zones w' := by
  constructor
  · intro fd x hx i c hc hf
    obtain ⟨a, ha, hx⟩ := List.mem_flatMap.mp hx
    obtain ⟨j, hj⟩ := List.getElem?_of_mem ha
    obtain ⟨c₀, hc₀, har⟩ := hget j a hj
    cases har with
    | left s => cases hx
    | sent o ht =>
      obtain ⟨fd', hf', he | he⟩ := DNSConnect.mem_calls_sendDNSQueryBuffer hx
      · cases he
        exact hs i j c c₀ fd hc hc₀ hf hf' ▸ ht
      · cases he
  · intro w' hw' i c x hc hx
    rw [hw', List.getElem?_map] at hc
    obtain ⟨a, ha, rfl⟩ := Option.map_eq_some_iff.mp hc
    obtain ⟨c₀, hc₀, har⟩ := hget i a ha
    cases har with
    | left s => exact hq i c₀ x hc₀ hx
    | sent o ht =>
      rcases DNSConnect.mem_queue_sendDNSQueryBuffer hx with hx | rfl
      · exact hq i c₀ x hc₀ hx
      · exact ht

theorem rightly_recv (hq : QueuedRightly zones w) (hs : OwnSockets w) {l : Option PktInfo} {now : ℕ}
    {outs : ℕ → SendOutcome} (ha : AsksRightly zones w (.recv l d now outs)) :
    SentRightly zones w (step zones (.recv l d now outs) w).2 ∧
      QueuedRightly zones (step zones (.recv l d now outs) w).1 := by
  by_cases hl : d.length < 2
  · have he : step zones (.recv l d now outs) w =
        ({ w with raReply := w.raReply.setLocalAddr l, llLastTouch := now }, []) := if_pos hl
    rw [he]
    exact ⟨fun fd x hx => absurd hx List.not_mem_nil, hq⟩
  have ha := ha (not_lt.mp hl)
  rcases hp : pending w (queryID d) with _ | wi <;> rw [hp] at ha
  · have hget : ∀ (i : ℕ) (a : Asked), (askedFirst zones w d outs)[i]? = some a →
        ∃ c, w.vsDNSConnects[i]? = some c ∧ AskedRightly zones d i c a := by
      intro i a h
      obtain ⟨c, hc, rfl⟩ := askedFirst_get h
      exact ⟨c, hc, askedRightly_askZone hc (isAsked_takesPart_iff.mpr ha)⟩
    obtain ⟨hsent, hqueued⟩ := rightly_of_asked hq hs hget
    unfold pending at hp
    simp only [step, DNSQureyWork.serverNewWork, hl, if_false, hp]
    exact ⟨hsent, hqueued _ rfl⟩
  · have hget : ∀ (i : ℕ) (a : Asked), (askedAgain w wi d outs)[i]? = some a →
        ∃ c, w.vsDNSConnects[i]? = some c ∧ AskedRightly zones d i c a := by
      intro i a h
      rw [getElem?_askedAgain] at h
      obtain ⟨c, hc, rfl⟩ := Option.map_eq_some_iff.mp h
      refine ⟨c, hc, ?_⟩
      rcases hitem : wi.vsDNSQueryResultItems[i]? with _ | item
      · exact .left _
      dsimp only
      unfold askAgain
      split_ifs with hw
      · by_cases hacc : c.Accepts (outs i)
        · have hstate : stateAt wi.vsDNSQueryResultItems i = some .wait := by
            unfold stateAt
            rw [hitem, ← hw]
            rfl
          exact .sent _ (ha i hstate ⟨c, hc, hacc⟩)
        · rw [sendOrError_of_not_accepts hacc]
          exact .left _
      · exact .left _
    obtain ⟨hsent, hqueued⟩ := rightly_of_asked hq hs hget
    unfold pending at hp
    simp only [step, DNSQureyWork.serverNewWork, hl, if_false, hp]
    exact ⟨hsent, hqueued _ rfl⟩

/-- A send that is accepted shows among the calls, or in the queue. -/
theorem passedOn {asked : List Asked} {o : SendOutcome} (hacc : c.Accepts o)
    (hget : asked[i]? = some (sendOrError o d .wait c)) :
    (∃ fd, c.fdSock = some fd ∧ .send fd d ∈ asked.flatMap (·.calls)) ∨
      ∃ c', (asked.map (·.conn))[i]? = some c' ∧ d ∈ c'.lsWriteQueue := by
  obtain ⟨fd, hf, hs | hs⟩ := sendOrError_of_accepts hacc
  · exact Or.inl ⟨fd, hf, List.mem_flatMap.mpr ⟨_, List.mem_of_getElem? hget, hs⟩⟩
  · refine Or.inr ⟨_, ?_, hs⟩
    rw [List.getElem?_map]
    exact congrArg (Option.map Asked.conn) hget

theorem takesPart_of_rightly {l : Option PktInfo} {now : ℕ} {outs : ℕ → SendOutcome} (hl : 2 ≤ d.length)
    (hsent : SentRightly zones w (step zones (.recv l d now outs) w).2)
    (hqueued : QueuedRightly zones (step zones (.recv l d now outs) w).1) :
    AsksRightly zones w (.recv l d now outs) := by
  have hl' : ¬ d.length < 2 := not_lt.mpr hl
  intro _
  rcases hp : pending w (queryID d) with _ | wi <;> unfold pending at hp <;>
    simp only [step, DNSQureyWork.serverNewWork, hl', if_false, hp] at hsent hqueued
  · refine isAsked_takesPart_iff.mp ?_
    rintro i ⟨hi, c, hc, hacc⟩
    have hget : (askedFirst zones w d outs)[i]? = some (sendOrError (outs i) d .wait c) := by
      unfold askedFirst
      rw [List.getElem?_mapIdx, hc]
      exact congrArg some (if_neg fun hn => hi.elim hn.1 hn.2)
    rcases passedOn hacc hget with ⟨fd, hf, hx⟩ | ⟨c', hc', hx⟩
    · exact hsent fd d hx i c hc hf
    · exact hqueued i c' d hc' hx
  · rintro i hw ⟨c, hc, hacc⟩
    obtain ⟨item, hitem, hwait⟩ := Option.map_eq_some_iff.mp hw
    have hget : (askedAgain w wi d outs)[i]? = some (sendOrError (outs i) d .wait c) := by
      rw [getElem?_askedAgain, hc, Option.map_some, hitem]
      exact congrArg some (if_pos hwait)
    rcases passedOn hacc hget with ⟨fd, hf, hx⟩ | ⟨c', hc', hx⟩
    · exact hsent fd d hx i c hc hf
    · exact hqueued i c' d hc' hx

/-- **One event** sends and queues only what the zones take part in exactly when it is of the right
kind. -/
theorem asking_step_iff (hq : QueuedRightly zones w) (hs : OwnSockets w) (e : Event) :
    SentRightly zones w (step zones e w).2 ∧ QueuedRightly zones (step zones e w).1 ↔
      AsksRightly zones w e := by
  constructor
  · rintro ⟨hsent, hqueued⟩
    cases e with
    | recv l d now outs => exact fun hl => takesPart_of_rightly hl hsent hqueued hl
    | _ => trivial
  · intro ha
    by_cases hr : ∃ l d now outs, e = .recv l d now outs
    · obtain ⟨l, d, now, outs, rfl⟩ := hr
      exact rightly_recv hq hs ha
    constructor
    · intro fd x hx i c hc hf
      obtain ⟨j, c', hc', hf', hxq | ⟨l, now, outs, he⟩⟩ := mem_send_step hx
      · exact hs i j c c' fd hc hc' hf hf' ▸ hq j c' x hc' hxq
      · exact absurd ⟨l, x, now, outs, he⟩ hr
    · intro i c x hc hx
      obtain ⟨c₀, hc₀, hk⟩ := (conns_step zones e w).2 i c hc
      rcases hk.queue x hx with hx | ⟨l, now, outs, he⟩
      · exact hq i c₀ x hc₀ hx
      · exact absurd ⟨l, x, now, outs, he⟩ hr

/-! ### Runs -/

theorem rightly_run (h : Run (step zones) (AsksRightly zones) w₀ tr w) (h0 : Fresh w₀)
    (hs : OwnSockets w₀) : QueuedRightly zones w ∧ OwnSockets w := by
  refine Run.inv (P := fun _ w => QueuedRightly zones w ∧ OwnSockets w) ?_ ?_ h
  · refine ⟨fun i c x hc hx => ?_, hs⟩
    rw [h0.queue i c hc] at hx
    cases hx
  · rintro tr w e ⟨hq, hs⟩ hok
    exact ⟨((asking_step_iff hq hs e).mpr hok).2, hs.step e⟩

/-- **Zones that do not take part are not asked.** In every run of events of the right kind, no datagram with
an `A` question is sent to a zone, other than the first, without an IPv4 list, and none with an `AAAA` question
to one without an IPv6 list; and the next event keeps it so, for what it sends and queues, exactly when it is
of that kind. -/
theorem asked_take_part (h : Run (step zones) (AsksRightly zones) w₀ tr w) (h0 : Fresh w₀)
    (hs : OwnSockets w₀) :
    (∀ x ∈ tr, ∀ fd d, Call.send fd d ∈ x.out → ∀ (i : ℕ) (c : DNSConnect), i ≠ 0 →
      x.before.vsDNSConnects[i]? = some c → c.fdSock = some fd → ∀ q ∈ questions d,
      (q.uQType = 1 → (zoneAt zones i).bHasV4 = true) ∧ (q.uQType = 28 → (zoneAt zones i).bHasV6 = true)) ∧
    ∀ e, SentRightly zones w (step zones e w).2 ∧ QueuedRightly zones (step zones e w).1 ↔
      AsksRightly zones w e := by
  obtain ⟨hq, hown⟩ := rightly_run h h0 hs
  refine ⟨fun x hx fd d hd i c hi hc hf q hqd => ?_, fun e => asking_step_iff hq hown e⟩
  obtain ⟨tr', tr₀, rfl⟩ := List.append_of_mem hx
  obtain ⟨hrun, hok, hout⟩ := h.at_entry rfl
  obtain ⟨hq₀, hown₀⟩ := rightly_run hrun h0 hs
  have hsent := ((asking_step_iff hq₀ hown₀ x.event).mpr hok).1
  rw [hout] at hd
  exact (hsent fd d hd i c hc hf).lists hi hqd

theorem ownSockets_freshWork (n : ℕ) : OwnSockets (freshWork n) := by
  intro i j c c' fd hc hc' hf hf'
  unfold freshWork at hc hc'
  dsimp only at hc hc'
  rw [List.getElem?_map] at hc hc'
  obtain ⟨a, ha, rfl⟩ := Option.map_eq_some_iff.mp hc
  obtain ⟨b, hb, rfl⟩ := Option.map_eq_some_iff.mp hc'
  obtain ⟨hi, rfl⟩ := List.getElem?_eq_some_iff.mp ha
  obtain ⟨hj, rfl⟩ := List.getElem?_eq_some_iff.mp hb
  have hfd : 10 + (List.range n)[i] = 10 + (List.range n)[j] :=
    (Option.some.inj hf).trans (Option.some.inj hf').symm
  rw [List.getElem_range, List.getElem_range] at hfd
  omega

/-- Three zones, of which the second has an IPv4 list. -/
def listOnSecond : Zones := [{}, { bHasV4 := true, siIPInfos := [{ nFamily := 4 }] }, {}]

/-- A question of another type, which all three are asked, an error on the socket of the third, and then an
`A` question under the same ID. -/
def askedAgainForA : List Event :=
  [.recv none (query 5 [97] 16) 0 fun _ => .sent, .disconnect 2, .recv none (query 5 [97] 1) 1 fun _ => .sent]

/-- The `A` question goes to the second zone, and none goes to the third; an `AAAA` question under this ID would
go wrong. -/
theorem asked_take_part_again :
    (∃ x ∈ (exec (step listOnSecond) askedAgainForA [] (freshWork 3)).1, Call.send 11 (query 5 [97] 1) ∈ x.out) ∧
    (∀ x ∈ (exec (step listOnSecond) askedAgainForA [] (freshWork 3)).1,
      x.before.vsDNSConnects[2]? = some ⟨2, some 12, []⟩ → Call.send 12 (query 5 [97] 1) ∉ x.out) ∧
    ¬ AsksRightly listOnSecond (exec (step listOnSecond) askedAgainForA [] (freshWork 3)).2
      (.recv none (query 5 [97] 28) 2 fun _ => .sent) := by
  have hrun : Run (step listOnSecond) (AsksRightly listOnSecond) (freshWork 3) _ _ :=
    Run.start.exec (show Allowed _ _ askedAgainForA _ by decide +kernel)
  obtain ⟨hall, hnext⟩ := asked_take_part hrun (fresh_freshWork 3) (ownSockets_freshWork 3)
  refine ⟨⟨_, List.mem_cons_self, by decide +kernel⟩, fun x hx hc hd => ?_, fun hright => ?_⟩
  · have hlist := (hall x hx 12 _ hd 2 _ (by decide) hc rfl
      ((questions (query 5 [97] 1)).head (by decide +kernel)) (List.head_mem _)).1 (by decide +kernel)
    exact absurd hlist (by decide)
  · have hsent := ((hnext (.recv none (query 5 [97] 28) 2 fun _ => .sent)).mpr hright).1
    have hlist := (hsent 11 (query 5 [97] 28) (by decide +kernel) 1 ⟨1, some 11, []⟩ (by decide +kernel)
      rfl).resolve_left (by decide)
    exact absurd hlist (by decide +kernel)

/-- A question of another type under a pending ID, which goes to a zone without lists. -/
theorem asked_without_list : ¬ ∀ (zones : Zones) (w₀ w : DNSQureyWork) (tr : Trace), Fresh w₀ →
    OwnSockets w₀ → Run (step zones) anyStep w₀ tr w → ∀ x ∈ tr, ∀ fd d, Call.send fd d ∈ x.out →
      ∀ (i : ℕ) (c : DNSConnect), i ≠ 0 → x.before.vsDNSConnects[i]? = some c → c.fdSock = some fd →
        ∀ q ∈ questions d, q.uQType = 1 → (zoneAt zones i).bHasV4 = true := by
  intro h
  have hall := h _ _ _ _ (fresh_freshWork 2) (ownSockets_freshWork 2) (run_exec (step [{}, {}]) (freshWork 2)
    [.recv none (query 5 [97] 16) 0 fun _ => .sent, .recv none (query 5 [97] 1) 1 fun _ => .sent])
  have hbad := hall _ List.mem_cons_self 11 (query 5 [97] 1) (by decide +kernel) 1 ⟨1, some 11, []⟩ (by decide)
    (by decide +kernel) rfl ((questions (query 5 [97] 1)).head (by decide +kernel)) (List.head_mem _)
    (by decide +kernel)
  exact absurd hbad (by decide)

end DnsMultiZone.Work.Asking
