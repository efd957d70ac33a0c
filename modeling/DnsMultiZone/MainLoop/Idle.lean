import DnsMultiZone.MainLoop.Clients

/-! # Idle works

A work without a pending query is closed at the end of the round, if it has asked for that: `CloseIdle` looks
at the keys that are noted. A work asks when its last query is answered. A work that is set up for a datagram
without an ID has no query and does not ask, so it stays until it times out.

* `allPending_closeIdle`: `CloseIdle` leaves no idle work exactly if all of them are noted.
* `noted_batch_iff`: when that is so after the events of a round.
* `idle_works_closed`: the runs of rounds in which it is.
* `left_idle`: a datagram of one byte. -/

namespace DnsMultiZone.MainLoop.Idle

open DnsMultiZone.Lib.BigEndian DnsMultiZone.Lib.Assoc DnsMultiZone.Lib.Runs DnsMultiZone.Lib.Handles
open DnsMultiZone.Config.ConfigType DnsMultiZone.Work.Connect
open DnsMultiZone.Work.Query hiding Event step
open DnsMultiZone.Work.Steps
open DnsMultiZone.MainLoop.Descriptors DnsMultiZone.MainLoop.Dispatch DnsMultiZone.MainLoop.Ownership
open DnsMultiZone.MainLoop.Works DnsMultiZone.MainLoop.Batch DnsMultiZone.MainLoop.Clients

/-! ### Events of works -/

section Work

variable {zones : Zones} {e : Work.Query.Event} {w : DNSQureyWork}

theorem isIdle_iff : w.isIdle = true ↔ ∀ n, pending w n = none := by
  unfold DNSQureyWork.isIdle
  rw [decide_eq_true_iff, List.eq_nil_iff_forall_not_mem]
  exact forall_congr' fun n => (not_congr AList.mem_keys.symm).trans AList.lookup_eq_none.symm

theorem isIdle_eq_false_iff : w.isIdle = false ↔ ∃ n, pending w n ≠ none := by
  rw [← Bool.not_eq_true, isIdle_iff, not_forall]

theorem workClose_of_idle (h : (Work.Query.step zones e w).1.isIdle = true) :
    w.isIdle = true ∨ Call.workClose w.sKey ∈ (Work.Query.step zones e w).2 := by
  by_cases he : ∃ i d, e = .read i d
  · obtain ⟨i, d, rfl⟩ := he
    rcases step_read zones i d w with ⟨-, hs⟩ | ⟨wi, hd, hp, ⟨hw, -⟩ | ⟨hw, hs⟩⟩
    · rw [hs] at h
      exact Or.inl h
    · have hnone := isIdle_iff.mp h (replyID d)
      rw [pending_read hd hp, if_pos hw] at hnone
      cases hnone
    · rw [hs] at h
      exact Or.inr (mem_calls_read.mpr ⟨wi, hd, hp, hw, Or.inr ⟨h, rfl⟩⟩)
  · refine Or.inl (isIdle_iff.mpr fun n => ?_)
    have hnone := isIdle_iff.mp h n
    rw [pending_step] at hnone
    unfold pendingAfter at hnone
    rcases e with ⟨l, d, now, outs⟩ | ⟨i, d⟩ | i | ⟨i, outs⟩ <;> dsimp only at hnone
    · split_ifs at hnone
      · exact hnone
      · split at hnone <;> cases hnone
    · exact absurd ⟨i, d, rfl⟩ he
    · exact Option.map_eq_none_iff.mp hnone
    · exact hnone

/-- Only a work that has a pending query asks. -/
theorem workClose_step {sKey : Bytes} (h : Call.workClose sKey ∈ (Work.Query.step zones e w).2) :
    sKey = w.sKey ∧ w.isIdle = false := by
  by_cases he : ∃ i d, e = .read i d
  · obtain ⟨i, d, rfl⟩ := he
    obtain ⟨wi, -, hp, -, ⟨out, -, hx⟩ | ⟨-, hx⟩⟩ := mem_calls_read.mp h
    · cases hx
    · cases hx
      exact ⟨rfl, isIdle_eq_false_iff.mpr ⟨replyID d, by simp [hp]⟩⟩
  · obtain ⟨i, c, fd, -, -, ⟨d, hx, -⟩ | ⟨b, hx⟩ | ⟨hx, -⟩⟩ :=
      mem_calls_step h fun i d hd => he ⟨i, d, hd⟩
    all_goals cases hx

/-- An idle work stays so, but for a query. -/
theorem idle_step (h : w.isIdle = true)
    (he : ∀ l d now outs, e = .recv l d now outs → d.length < 2) :
    (Work.Query.step zones e w).1.isIdle = true := by
  refine isIdle_iff.mpr fun n => ?_
  by_contra hn
  rcases pending_or_asked hn with hn | ⟨l, d, now, outs, hr, hl, -⟩
  · exact hn (isIdle_iff.mp h n)
  · have hlt := he l d now outs hr
    omega

end Work

/-! ### Noted keys -/

/-- If the work filed under the key is idle, it is noted. -/
def Noted (sKey : Bytes) (s : Server) : Prop :=
  ∀ p w, s.heap.lookup p = some w → w.sKey = sKey → w.isIdle = true → sKey ∈ s.ssIdle

/-- The work filed under the key is idle, if there is one, and it is not noted. -/
def Unnoted (sKey : Bytes) (s : Server) : Prop :=
  sKey ∉ s.ssIdle ∧ ∀ p w, s.heap.lookup p = some w → w.sKey = sKey → w.isIdle = true

/-- Every stored work has a pending query. -/
def AllPending (s : Server) : Prop :=
  ∀ sKey p, s.spWorkManager.lookup sKey = some p →
    ∃ w n, s.heap.lookup p = some w ∧ pending w n ≠ none

section WorkEvent

variable {zones : Zones} {o : SendOutcome} {p : WorkPtr} {e : Work.Query.Event} {s : Server}
  {sKey : Bytes}

theorem mem_ssIdle_performAll {cs : List Call} : sKey ∈ (s.performAll o cs).1.ssIdle ↔
    sKey ∈ s.ssIdle ∨ Call.workClose sKey ∈ cs := by
  induction cs generalizing s with
  | nil => exact (or_iff_left List.not_mem_nil).symm
  | cons c cs ih =>
    have hone : sKey ∈ (s.perform o c).1.ssIdle ↔ sKey ∈ s.ssIdle ∨ Call.workClose sKey = c := by
      rcases c with _ | _ | _ | ⟨ra, d⟩ | sKey'
      · exact (or_iff_left fun h => by cases h).symm
      · exact (or_iff_left fun h => by cases h).symm
      · exact (or_iff_left fun h => by cases h).symm
      · refine Iff.trans ?_ (or_iff_left fun h => by cases h).symm
        unfold Server.perform Server.sendTo
        dsimp only
        split_ifs <;> exact Iff.rfl
      · rw [Call.workClose.injEq]
        exact List.mem_insert_iff.trans or_comm
    refine (ih (s := (s.perform o c).1)).trans ?_
    rw [hone, or_assoc, List.mem_cons]

theorem mem_ssIdle_workEvent : sKey ∈ (s.workEvent zones o p e).1.ssIdle ↔ sKey ∈ s.ssIdle ∨
    ∃ w, s.heap.lookup p = some w ∧ Call.workClose sKey ∈ (Work.Query.step zones e w).2 := by
  unfold Server.workEvent
  rcases hw : s.heap.lookup p with _ | w
  · simp
  · simp [mem_ssIdle_performAll]

theorem noted_workEvent (h : Noted sKey s) : Noted sKey (s.workEvent zones o p e).1 := by
  intro p' w' hw' hkey hidle
  refine mem_ssIdle_workEvent.mpr ?_
  rcases lookup_workEvent hw' with hw' | ⟨rfl, w, hw, rfl⟩
  · exact Or.inl (h p' w' hw' hkey hidle)
  · rw [sKey_step] at hkey
    subst hkey
    rcases workClose_of_idle hidle with hidle | hclose
    · exact Or.inl (h p' w hw rfl hidle)
    · exact Or.inr ⟨w, hw, hclose⟩

theorem unnoted_workEvent (h : Unnoted sKey s) (he : ∀ w, s.heap.lookup p = some w → w.sKey = sKey →
    ∀ l d now outs, e = .recv l d now outs → d.length < 2) :
    Unnoted sKey (s.workEvent zones o p e).1 := by
  refine ⟨fun hmem => ?_, fun p' w' hw' hkey => ?_⟩
  · rcases mem_ssIdle_workEvent.mp hmem with hmem | ⟨w, hw, hclose⟩
    · exact h.1 hmem
    · obtain ⟨hkey, hbusy⟩ := workClose_step hclose
      exact Bool.false_ne_true (hbusy.symm.trans (h.2 p w hw hkey.symm))
  · rcases lookup_workEvent hw' with hw' | ⟨rfl, w, hw, rfl⟩
    · exact h.2 p' w' hw' hkey
    · rw [sKey_step] at hkey
      exact idle_step (h.2 p' w hw hkey) (he w hw hkey)

end WorkEvent

/-! ### Events of a round -/

/-- The client that the event is a datagram of, if that has `n` bytes at least. -/
def clientOf (g : Setup) (n : ℕ) : Event → Option Bytes
  | .listenRead r _ _ _ =>
    if n ≤ r.sBuffer.length then some (addrToString g.inet r.addrClient) else none
  | _ => none

section Step

variable {g : Setup} {s : Sys} {log : List (Op Fd)} {e : Event} {sKey : Bytes}

theorem clientOf_eq_some {n : ℕ} : clientOf g n e = some sKey ↔ ∃ r now conn outs,
    e = .listenRead r now conn outs ∧ n ≤ r.sBuffer.length ∧
      addrToString g.inet r.addrClient = sKey := by
  constructor
  · intro h
    rcases e with ⟨r, now, conn, outs⟩ | _ | _ | _ | _ | _ | _ | _
    · have h : (if n ≤ r.sBuffer.length then some (addrToString g.inet r.addrClient) else none) =
          some sKey := h
      split_ifs at h with hn
      exact ⟨r, now, conn, outs, rfl, hn, Option.some.inj h⟩
    all_goals cases h
  · rintro ⟨r, now, conn, outs, rfl, hn, rfl⟩
    exact if_pos hn

theorem stored_of_client (ho : Owned s.server s.kernel log) (hl : LawfulStep g s e)
    (h : clientOf g 1 e = some sKey) : sKey ∈ (step g e s).1.server.spWorkManager := by
  obtain ⟨r, now, conn, outs, rfl, hn, rfl⟩ := clientOf_eq_some.mp h
  have hb := List.length_pos_iff.mp hn
  rcases hp : s.server.spWorkManager.lookup (addrToString g.inet r.addrClient) with _ | p
  · exact mem_of_lookup (handed_new ho hl hb (AList.lookup_eq_none.mp hp)).2.2
  · exact mem_of_lookup (handed_stored ho hl hb hp).2.2

theorem not_stored_step (ho : Owned s.server s.kernel log) (hl : LawfulStep g s e) (hc : ¬ Closes e)
    (h : clientOf g 1 e ≠ some sKey) (hs : sKey ∉ s.server.spWorkManager) :
    sKey ∉ (step g e s).1.server.spWorkManager := by
  rcases server_step ho hl hc with ⟨queue, he⟩ | ⟨o, p, e', -, he⟩ |
    ⟨r, now, conn, outs, rfl, hb, ⟨p, -, he⟩ | ⟨-, -, he⟩⟩ <;> rw [he]
  · exact hs
  · rw [(managers_workEvent _ _ _ _ _).2]
    exact hs
  · rw [(managers_workEvent _ _ _ _ _).2]
    exact hs
  · rw [(managers_workEvent _ _ _ _ _).2]
    intro hm
    rcases (AList.mem_insert _).mp hm with rfl | hm
    · exact h (if_pos (List.length_pos_iff.mpr hb))
    · exact hs hm

/-- **A work that is noted when it is idle** stays so. -/
theorem noted_step (ho : Owned s.server s.kernel log) (hl : LawfulStep g s e) (hc : ¬ Closes e)
    (hs : sKey ∈ s.server.spWorkManager) (h : Noted sKey s.server) :
    Noted sKey (step g e s).1.server := by
  rcases server_step ho hl hc with ⟨queue, he⟩ | ⟨o, p, e', -, he⟩ |
    ⟨r, now, conn, outs, -, -, ⟨p, -, he⟩ | ⟨hkey, -, he⟩⟩ <;> rw [he]
  · exact h
  · exact noted_workEvent h
  · exact noted_workEvent h
  · refine noted_workEvent fun p w hw hk hidle => ?_
    rcases lookup_insert_cases hw with ⟨-, rfl⟩ | ⟨-, hw⟩
    · subst hk
      exact absurd hs hkey
    · exact h p w hw hk hidle

/-- **An idle work that is not noted** stays so until its client sends a query. -/
theorem unnoted_step (ho : Owned s.server s.kernel log) (hl : LawfulStep g s e) (hc : ¬ Closes e)
    (hq : clientOf g 2 e ≠ some sKey) (h : Unnoted sKey s.server) :
    Unnoted sKey (step g e s).1.server := by
  rcases server_step ho hl hc with ⟨queue, he⟩ | ⟨o, p, e', hr, he⟩ |
    ⟨r, now, conn, outs, rfl, -, hread⟩
  · rw [he]
    exact h
  · rw [he]
    exact unnoted_workEvent h fun w _ _ l d now outs hd => absurd hd (hr l d now outs)
  have hshort : addrToString g.inet r.addrClient = sKey → ∀ l d now' outs',
      Work.Query.Event.recv r.localAddr r.sBuffer now outs = .recv l d now' outs' → d.length < 2 := by
    intro hk l d now' outs' hd
    cases hd
    by_contra hlen
    exact hq (clientOf_eq_some.mpr ⟨r, now, conn, outs, rfl, not_lt.mp hlen, hk⟩)
  rcases hread with ⟨p, hp, he⟩ | ⟨-, -, he⟩ <;> rw [he]
  · refine unnoted_workEvent h fun w hw hk => hshort ?_
    obtain ⟨w₁, hw₁, hk₁⟩ := (ho.stored _ p).mp hp
    obtain rfl := Option.some.inj (hw.symm.trans hw₁)
    exact hk₁.symm.trans hk
  · refine unnoted_workEvent ⟨h.1, fun p w hw hk => ?_⟩ fun w hw hk => hshort ?_
    · rcases lookup_insert_cases hw with ⟨-, rfl⟩ | ⟨-, hw⟩
      · exact isIdle_iff.mpr fun n => rfl
      · exact h.2 p w hw hk
    · rcases lookup_insert_cases hw with ⟨-, rfl⟩ | ⟨hne, -⟩
      · exact hk
      · exact absurd rfl hne

/-- **After a query** the work of its client is not idle. -/
theorem noted_of_query (ho : Owned s.server s.kernel log) (hl : LawfulStep g s e)
    (h : clientOf g 2 e = some sKey) : Noted sKey (step g e s).1.server := by
  obtain ⟨r, now, conn, outs, rfl, hn, rfl⟩ := clientOf_eq_some.mp h
  have hwork : ∀ {s' : Server} {p w}, s'.heap.lookup p = some w →
      (∀ p' w', s'.heap.lookup p' = some w' → w'.sKey = addrToString g.inet r.addrClient → p' = p) →
      Noted (addrToString g.inet r.addrClient)
        (s'.workEvent g.zones .sent p (.recv r.localAddr r.sBuffer now outs)).1 := by
    intro s' p w hw honly p' w' hw' hk hidle
    rw [heap_workEvent hw] at hw'
    rcases lookup_insert_cases hw' with ⟨rfl, rfl⟩ | ⟨hne, hw'⟩
    · have hnone := isIdle_iff.mp hidle (queryID r.sBuffer)
      rcases hp : pending w (queryID r.sBuffer) with _ | wi
      · rw [pending_recv_none hn hp] at hnone
        cases hnone
      · rw [pending_recv_some hn hp] at hnone
        cases hnone
    · exact absurd (honly p' w' hw' hk) hne
  show Noted _ (s.server.onListenRead g r now conn outs).1
  rcases onListenRead_cases ho hl with ⟨hb, -⟩ | ⟨-, p, hp, he⟩ | ⟨-, hkey, -, he⟩
  · rw [hb] at hn
    cases hn
  · rw [he]
    obtain ⟨w, hw, -⟩ := (ho.stored _ p).mp hp
    refine hwork hw fun p' w' hw' hk => ?_
    exact Option.some.inj (((ho.stored _ p').mpr ⟨w', hw', hk⟩).symm.trans hp)
  · rw [he]
    refine hwork (AList.lookup_insert _) fun p' w' hw' hk => ?_
    rcases lookup_insert_cases hw' with ⟨rfl, -⟩ | ⟨-, hw'⟩
    · rfl
    · exact absurd (mem_of_lookup ((ho.stored _ p').mpr ⟨w', hw', hk⟩)) hkey

end Step

/-! ### The events of a round -/

/-- **The rounds that leave no idle work**: every client without a work that sends a datagram sends one with
an ID. -/
def SendsID (g : Setup) (s : Server) (es : List Event) : Prop :=
  ∀ e ∈ es, ∀ sKey ∈ clientOf g 1 e, sKey ∉ s.spWorkManager → ∃ e' ∈ es, clientOf g 2 e' = some sKey

instance (g : Setup) (s : Server) (es : List Event) : Decidable (SendsID g s es) := by
  unfold SendsID; infer_instance

section Batch

variable {g : Setup} {s : Sys} {log : List (Op Fd)} {es : List Event} {sKey : Bytes}

theorem noted_after (ho : Owned s.server s.kernel log) (hl : Allowed (step g) (LawfulStep g) es s)
    (hc : ∀ e ∈ es, ¬ Closes e) (hs : sKey ∈ s.server.spWorkManager) (h : Noted sKey s.server) :
    Noted sKey (after (step g) es s).server := by
  induction es generalizing s log with
  | nil => exact h
  | cons e es ih =>
    obtain ⟨hfirst, hrest⟩ := List.forall_mem_cons.mp hc
    obtain ⟨p, hp⟩ := Option.isSome_iff_exists.mp (AList.lookup_isSome.mpr hs)
    have hs' := mem_of_lookup ((kept_step ho hl.1 hfirst).works _ _ hp)
    exact ih (owned_step ho hl.1) hl.2 hrest hs' (noted_step ho hl.1 hfirst hs h)

theorem unnoted_after (ho : Owned s.server s.kernel log) (hl : Allowed (step g) (LawfulStep g) es s)
    (hc : ∀ e ∈ es, ¬ Closes e) (hq : ∀ e ∈ es, clientOf g 2 e ≠ some sKey)
    (h : Unnoted sKey s.server) : Unnoted sKey (after (step g) es s).server := by
  induction es generalizing s log with
  | nil => exact h
  | cons e es ih =>
    obtain ⟨hfirst, hrest⟩ := List.forall_mem_cons.mp hc
    obtain ⟨hqfirst, hqrest⟩ := List.forall_mem_cons.mp hq
    exact ih (owned_step ho hl.1) hl.2 hrest hqrest (unnoted_step ho hl.1 hfirst hqfirst h)

theorem not_stored_after (ho : Owned s.server s.kernel log)
    (hl : Allowed (step g) (LawfulStep g) es s) (hc : ∀ e ∈ es, ¬ Closes e)
    (hq : ∀ e ∈ es, clientOf g 1 e ≠ some sKey) (h : sKey ∉ s.server.spWorkManager) :
    sKey ∉ (after (step g) es s).server.spWorkManager := by
  induction es generalizing s log with
  | nil => exact h
  | cons e es ih =>
    obtain ⟨hfirst, hrest⟩ := List.forall_mem_cons.mp hc
    obtain ⟨hqfirst, hqrest⟩ := List.forall_mem_cons.mp hq
    exact ih (owned_step ho hl.1) hl.2 hrest hqrest (not_stored_step ho hl.1 hfirst hqfirst h)

/-- **When all idle works are noted** after the events of a round that starts without one. -/
theorem noted_batch_iff (ho : Owned s.server s.kernel log) (hl : Allowed (step g) (LawfulStep g) es s)
    (hc : ∀ e ∈ es, ¬ Closes e) (hidle : s.server.ssIdle = [])
    (hbusy : ∀ p w, s.server.heap.lookup p = some w → w.isIdle = false) :
    (∀ sKey, Noted sKey (after (step g) es s).server) ↔ SendsID g s.server es := by
  -- The state after an event of the round, and what is left of the round.
  have hsplit : ∀ e ∈ es, ∃ es₁ es₂ log', es = es₁ ++ e :: es₂ ∧
      Owned (after (step g) es₁ s).server (after (step g) es₁ s).kernel log' ∧
      LawfulStep g (after (step g) es₁ s) e ∧ (∀ x ∈ es₂, ¬ Closes x) ∧
      Allowed (step g) (LawfulStep g) es₂ (step g e (after (step g) es₁ s)).1 ∧
      after (step g) es s = after (step g) es₂ (step g e (after (step g) es₁ s)).1 := by
    intro e he
    obtain ⟨es₁, es₂, rfl⟩ := List.append_of_mem he
    obtain ⟨hl₁, hl₂⟩ := allowed_append.mp hl
    obtain ⟨-, log', ho'⟩ := kept_after ho hl₁ fun x hx => hc x (List.mem_append_left _ hx)
    have hc₂ : ∀ x ∈ es₂, ¬ Closes x := fun x hx =>
      hc x (List.mem_append_right _ (List.mem_cons_of_mem _ hx))
    exact ⟨es₁, es₂, log', rfl, ho', hl₂.1, hc₂, hl₂.2, after_append _ _ _⟩
  obtain ⟨-, log', hafter⟩ := kept_after ho hl hc
  constructor
  · intro hnoted e he sKey hkey hs
    by_contra hno
    have hq : ∀ e ∈ es, clientOf g 2 e ≠ some sKey := fun e he hq => hno ⟨e, he, hq⟩
    have hun : Unnoted sKey s.server := by
      refine ⟨by rw [hidle]; exact List.not_mem_nil, fun p w hw hk => ?_⟩
      exact absurd (mem_of_lookup ((ho.stored _ p).mpr ⟨w, hw, hk⟩)) hs
    obtain ⟨hnot, hall⟩ := unnoted_after ho hl hc hq hun
    have hstored : sKey ∈ (after (step g) es s).server.spWorkManager := by
      obtain ⟨es₁, es₂, log', rfl, ho', hle, hc₂, hl₂, hes⟩ := hsplit e he
      obtain ⟨p, hp⟩ := Option.isSome_iff_exists.mp
        (AList.lookup_isSome.mpr (stored_of_client ho' hle hkey))
      rw [hes]
      exact mem_of_lookup ((kept_after (owned_step ho' hle) hl₂ hc₂).1.works _ _ hp)
    obtain ⟨p, hp⟩ := Option.isSome_iff_exists.mp (AList.lookup_isSome.mpr hstored)
    obtain ⟨w, hw, hk⟩ := (hafter.stored sKey p).mp hp
    exact hnot (hnoted sKey p w hw hk (hall p w hw hk))
  · intro hsends sKey
    by_cases hex : ∃ e ∈ es, clientOf g 2 e = some sKey
    · obtain ⟨e, he, hq⟩ := hex
      obtain ⟨es₁, es₂, log', rfl, ho', hle, hc₂, hl₂, hes⟩ := hsplit e he
      obtain ⟨r, now, conn, outs, rfl, hn, hk⟩ := clientOf_eq_some.mp hq
      have hone : clientOf g 1 (.listenRead r now conn outs) = some sKey :=
        clientOf_eq_some.mpr ⟨r, now, conn, outs, rfl, by omega, hk⟩
      rw [hes]
      exact noted_after (owned_step ho' hle) hl₂ hc₂ (stored_of_client ho' hle hone)
        (noted_of_query ho' hle hq)
    by_cases hs : sKey ∈ s.server.spWorkManager
    · exact noted_after ho hl hc hs fun p w hw _ hi => absurd hi (by rw [hbusy p w hw]; decide)
    · have hq : ∀ e ∈ es, clientOf g 1 e ≠ some sKey := fun e he hkey => hex (hsends e he sKey hkey hs)
      intro p w hw hk _
      exact absurd (mem_of_lookup ((hafter.stored sKey p).mpr ⟨w, hw, hk⟩))
        (not_stored_after ho hl hc hq hs)

end Batch

/-! ### Rounds -/

section Close

variable {g : Setup} {s : Sys} {log : List (Op Fd)}

theorem allPending_iff (ho : Owned s.server s.kernel log) : AllPending s.server ↔
    ∀ p w, s.server.heap.lookup p = some w → w.isIdle = false := by
  constructor
  · intro h p w hw
    obtain ⟨w', n, hw', hn⟩ := h w.sKey p ((ho.stored _ p).mpr ⟨w, hw, rfl⟩)
    obtain rfl := Option.some.inj (hw.symm.trans hw')
    exact isIdle_eq_false_iff.mpr ⟨n, hn⟩
  · intro h sKey p hp
    obtain ⟨w, hw, -⟩ := (ho.stored sKey p).mp hp
    obtain ⟨n, hn⟩ := isIdle_eq_false_iff.mp (h p w hw)
    exact ⟨w, n, hw, hn⟩

theorem lookup_closeIdle (ho : Owned s.server s.kernel log) {p : WorkPtr} {w : DNSQureyWork} :
    (step g .closeIdle s).1.server.heap.lookup p = some w ↔
      s.server.heap.lookup p = some w ∧ (w.sKey ∈ s.server.ssIdle → w.isIdle = false) :=
  lookup_heap_closeEach ho

/-- **No idle work is left** by `CloseIdle` if and only if all are noted. -/
theorem allPending_closeIdle (ho : Owned s.server s.kernel log) (hl : LawfulStep g s .closeIdle) :
    AllPending (step g .closeIdle s).1.server ↔ ∀ sKey, Noted sKey s.server := by
  rw [allPending_iff (owned_step ho hl)]
  constructor
  · rintro h sKey p w hw rfl hidle
    by_contra hno
    have hbusy := h p w ((lookup_closeIdle ho).mpr ⟨hw, fun hmem => absurd hmem hno⟩)
    exact Bool.false_ne_true (hbusy.symm.trans hidle)
  · intro h p w hw
    obtain ⟨hw, hkept⟩ := (lookup_closeIdle ho).mp hw
    by_contra hidle
    rw [Bool.not_eq_false] at hidle
    exact Bool.false_ne_true ((hkept (h _ p w hw rfl hidle)).symm.trans hidle)

end Close

section Run

variable {g : Setup} {m : MainFds} {kernel : Kernel} {r : Round} {s : Loop} {es : List Event}
  {tr : List (Entry Loop Round (List (Entry Sys Event (List Effect))))}

theorem sys_turn (hes : m.batch r.ready = some es) : (turn g m r s).1.sys =
    after (step g) (r.cleaning s.llLastClean) (after (step g) (es ++ [.closeIdle]) s.sys) := by
  have hevents : r.events m s = some (es ++ .closeIdle :: r.cleaning s.llLastClean) := by
    unfold Round.events
    rw [hes]
    rfl
  unfold turn
  rw [hevents, ← after_append, List.append_assoc]
  rfl

theorem cleaning_cases (r : Round) (llLastClean : ℕ) :
    r.cleaning llLastClean = [.clearTimeout r.llNowClear] ∨ r.cleaning llLastClean = [] :=
  ite_eq_or_eq _ _ _

/-- **One round** that starts without an idle work. -/
theorem round_step {log : List (Op Fd)} (ho : Owned s.sys.server s.sys.kernel log)
    (hok : LawfulTurn g m s r) (hidle : s.sys.server.ssIdle = []) : ∃ es, m.batch r.ready = some es ∧
    (AllPending s.sys.server → (AllPending (after (step g) (es ++ [.closeIdle]) s.sys).server ↔
      SendsID g s.sys.server es)) ∧
    (AllPending (after (step g) (es ++ [.closeIdle]) s.sys).server →
      AllPending (turn g m r s).1.sys.server) ∧
    (turn g m r s).1.sys.server.ssIdle = [] ∧
    ∀ p w n, (after (step g) es s.sys).server.heap.lookup p = some w → pending w n ≠ none →
      (after (step g) (es ++ [.closeIdle]) s.sys).server.heap.lookup p = some w := by
  obtain ⟨all, hall, hl⟩ := hok
  obtain ⟨es, hes, rfl⟩ := Option.map_eq_some_iff.mp hall
  obtain ⟨hl₁, hl₂⟩ := allowed_append.mp hl
  obtain ⟨hlclose, hlclean⟩ := allowed_cons.mp hl₂
  have hc := not_closes_of_batch hes
  obtain ⟨-, log', ho'⟩ := kept_after ho hl₁ hc
  have hoclose := owned_step ho' hlclose
  refine ⟨es, hes, fun hp => ?_, fun hp => ?_, ?_, fun p w n hw hn => ?_⟩
  · rw [after_append]
    refine (allPending_closeIdle ho' hlclose).trans ?_
    exact noted_batch_iff ho hl₁ hc hidle ((allPending_iff ho).mp hp)
  · rw [sys_turn hes]
    rw [after_append] at hp ⊢
    rcases cleaning_cases r s.llLastClean with hclean | hclean <;> rw [hclean] at hlclean ⊢
    · refine (allPending_iff (owned_step hoclose hlclean.1)).mpr fun p w hw => ?_
      exact (allPending_iff hoclose).mp hp p w ((lookup_heap_closeEach hoclose).mp hw).1
    · exact hp
  · rw [sys_turn hes, after_append]
    rcases cleaning_cases r s.llLastClean with hclean | hclean <;> rw [hclean]
    · obtain ⟨conns, works, heap, hs⟩ := server_closeEach (timedOut r.llNowClear)
        (step g .closeIdle (after (step g) es s.sys)).1.server.spWorkManager.keys
        (step g .closeIdle (after (step g) es s.sys)).1.server
      exact congrArg Server.ssIdle hs
    · rfl
  · rw [after_append]
    exact (lookup_closeIdle ho').mpr ⟨hw, fun _ => isIdle_eq_false_iff.mpr ⟨n, hn⟩⟩

/-- **Idle works do not survive a round**, in the runs of rounds in which every client without a work that
sends a datagram sends one with an ID, and in no others. And `CloseIdle` closes no work that has a pending
query. -/
theorem idle_works_closed (h : Run (turn g m) (LawfulTurn g m) (Loop.start m kernel) tr s) :
    ((∀ x ∈ tr, ∀ es, m.batch x.event.ready = some es →
        AllPending (after (step g) (es ++ [.closeIdle]) x.before.sys).server) ↔
      ∀ x ∈ tr, ∀ es, m.batch x.event.ready = some es → SendsID g x.before.sys.server es) ∧
    ((∀ x ∈ tr, ∀ es, m.batch x.event.ready = some es → SendsID g x.before.sys.server es) →
      AllPending s.sys.server) ∧
    ∀ x ∈ tr, ∀ es, m.batch x.event.ready = some es → ∀ p w n,
      (after (step g) es x.before.sys).server.heap.lookup p = some w → pending w n ≠ none →
      (after (step g) (es ++ [.closeIdle]) x.before.sys).server.heap.lookup p = some w := by
  suffices hinv : s.sys.server.ssIdle = [] ∧ _ ∧ _ ∧ _ from hinv.2
  induction h with
  | start =>
    refine ⟨rfl, ⟨fun _ x hx => ?_, fun _ x hx => ?_⟩, fun _ sKey p hp => ?_, fun x hx => ?_⟩
    · cases hx
    · cases hx
    · cases hp
    · cases hx
  | @next tr s r hrun hok ih =>
    obtain ⟨hidle, hiff, hbusy, hkeeps⟩ := ih
    obtain ⟨tr', hr⟩ := run_turns hrun
    obtain ⟨es, hes, hround, hpend, hidle', hkeep⟩ := round_step (owned_run hr) hok hidle
    -- The array of the round gives one list of events.
    have hone : ∀ P : List Event → Prop, (∀ es', m.batch r.ready = some es' → P es') ↔ P es := by
      refine fun P => ⟨fun h => h es hes, fun h es' hes' => ?_⟩
      rw [← Option.some.inj (hes.symm.trans hes')]
      exact h
    refine ⟨hidle', ?_, fun hsends => ?_, ?_⟩
    · rw [List.forall_mem_cons, List.forall_mem_cons, hiff]
      refine and_congr_left fun hsends => ?_
      exact (hone _).trans ((hround (hbusy hsends)).trans (hone _).symm)
    · obtain ⟨hfirst, hrest⟩ := List.forall_mem_cons.mp hsends
      exact hpend ((hround (hbusy hrest)).mpr ((hone _).mp hfirst))
    · exact List.forall_mem_cons.mpr ⟨(hone _).mpr hkeep, hkeeps⟩

end Run

/-- The descriptors of `main` in `kernelMain`. -/
def mainFds : MainFds := ⟨3, 4, []⟩

/-- A round with datagrams of one client on the listening socket. -/
def clientRound (sBuffers : List Bytes) : Round where
  ready := [{ fd := 3, pollIn := true, arrivals := sBuffers.map fun sBuffer =>
    ⟨datagram sBuffer, 0, fun _ => .connected 5, fun _ => .sent⟩ }]
  llNow := 0
  llNowClear := 0

/-- Its events. -/
def clientEvents (sBuffers : List Bytes) : List Event :=
  sBuffers.map fun sBuffer => .listenRead (datagram sBuffer) 0 (fun _ => .connected 5) fun _ => .sent

theorem events_clientRound {sBuffers : List Bytes} {es : List Event}
    (hes : mainFds.batch (clientRound sBuffers).ready = some es) :
    (clientRound sBuffers).events mainFds (Loop.start mainFds kernelMain) = some (es ++ [.closeIdle]) := by
  have hdue : ¬ isCleanDue 0 0 = true := by decide +kernel
  have hclean : (clientRound sBuffers).cleaning 0 = [] := if_neg hdue
  unfold Round.events
  rw [hes]
  show some (es ++ .closeIdle :: (clientRound sBuffers).cleaning 0) = _
  rw [hclean]

/-- A datagram of one byte, and then a query. -/
theorem idle_works_closed_late : AllPending
    (turn oneZone mainFds (clientRound [[7], query 5 [97] 1]) (Loop.start mainFds kernelMain)).1.sys.server := by
  have hrun : Run (turn oneZone mainFds) (LawfulTurn oneZone mainFds) (Loop.start mainFds kernelMain) _ _ :=
    Run.next (clientRound [[7], query 5 [97] 1]) Run.start
      ⟨clientEvents [[7], query 5 [97] 1] ++ [.closeIdle], events_clientRound rfl, by decide +kernel⟩
  refine (idle_works_closed hrun).2.1 fun x hx es hes => ?_
  obtain rfl := List.mem_singleton.mp hx
  obtain rfl : clientEvents [[7], query 5 [97] 1] = es := Option.some.inj hes
  decide +kernel

/-- **A datagram of one byte** sets up a work that is left when the round is over. -/
theorem left_idle : ¬ ∀ (g : Setup) (m : MainFds) (kernel : Kernel)
    (tr : List (Entry Loop Round (List (Entry Sys Event (List Effect))))) (s : Loop),
    Run (turn g m) (LawfulTurn g m) (Loop.start m kernel) tr s →
    (∀ x ∈ tr, ∀ es, m.batch x.event.ready = some es →
      AllPending (after (step g) (es ++ [.closeIdle]) x.before.sys).server) ∧
    ∀ x ∈ tr, ∀ es, m.batch x.event.ready = some es → ∀ p w n,
      (after (step g) es x.before.sys).server.heap.lookup p = some w → pending w n ≠ none →
      (after (step g) (es ++ [.closeIdle]) x.before.sys).server.heap.lookup p = some w := by
  intro h
  have hall := (h oneZone mainFds kernelMain _ _ (Run.next (clientRound [[7]]) Run.start
    ⟨clientEvents [[7]] ++ [.closeIdle], events_clientRound rfl, by decide +kernel⟩)).1 _ List.mem_cons_self
    (clientEvents [[7]]) rfl
  have hp : (after (step oneZone) (clientEvents [[7]] ++ [.closeIdle])
      (Sys.start 3 kernelMain)).server.spWorkManager.lookup
        (addrToString oneZone.inet (.inet 0x0A000002 5353)) = some 0 := by decide +kernel
  obtain ⟨w, n, hw, hn⟩ := hall _ 0 hp
  have hidle : ((after (step oneZone) (clientEvents [[7]] ++ [.closeIdle])
      (Sys.start 3 kernelMain)).server.heap.lookup 0).all (·.isIdle) = true := by decide +kernel
  have hw : (after (step oneZone) (clientEvents [[7]] ++ [.closeIdle])
      (Sys.start 3 kernelMain)).server.heap.lookup 0 = some w := hw
  rw [hw] at hidle
  exact hn (isIdle_iff.mp hidle n)

end DnsMultiZone.MainLoop.Idle
