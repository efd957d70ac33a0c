import DnsMultiZone.MainLoop.Batch

/-! # Clients

Works are filed under the printed address of their client, and a work answers the address of the datagram
that it was set up for. The printed address has everything of an address but the scope id: so two clients
whose link-local addresses and ports are the same, on two interfaces, share a work, and the second gets its
answers where the first is.

* `addrToString_eq_iff`: what the printed address tells apart.
* `own_address_iff`: when a datagram is handed to a work of its own sender.
* `answers_to_asker`: the runs in which every datagram is.
* `scope_shared`: two clients that differ in the scope id. -/

namespace DnsMultiZone.MainLoop.Clients

open DnsMultiZone.Lib.BigEndian DnsMultiZone.Lib.Assoc DnsMultiZone.Lib.Runs DnsMultiZone.Lib.Handles
open DnsMultiZone.Config.Address DnsMultiZone.Config.ConfigType DnsMultiZone.Work.Connect
open DnsMultiZone.Work.Query hiding Event step
open DnsMultiZone.Work.Steps
open DnsMultiZone.MainLoop.Descriptors DnsMultiZone.MainLoop.Dispatch DnsMultiZone.MainLoop.Ownership
open DnsMultiZone.MainLoop.Works DnsMultiZone.MainLoop.Batch

/-! ### Printed addresses -/

/-- What `inet_ntop` is known to do: no two addresses of a family are written alike, and an IPv4 address is
written without brackets. -/
structure LawfulInet (inet : Inet) : Prop where
  ntop4_injective : Function.Injective inet.ntop4
  ntop6_injective : Function.Injective inet.ntop6
  ntop4_plain : ∀ a, 0x5B ∉ inet.ntop4 a

/-- Addresses that differ in the scope id at most. Those without a family are all alike. -/
def SameUpToScope : SockAddr → SockAddr → Prop
  | .unspec _, .unspec _ => True
  | .inet a p, .inet a' p' => a = a' ∧ p = p'
  | .inet6 a p _, .inet6 a' p' _ => a = a' ∧ p = p'
  | _, _ => False

instance (a b : SockAddr) : Decidable (SameUpToScope a b) := by
  rcases a with p | ⟨x, p⟩ | ⟨x, p, i⟩ <;> rcases b with p' | ⟨x', p'⟩ | ⟨x', p', i'⟩
  all_goals
    unfold SameUpToScope
    infer_instance

theorem SameUpToScope.refl (a : SockAddr) : SameUpToScope a a := by
  cases a with
  | unspec p => trivial
  | inet a p => exact ⟨rfl, rfl⟩
  | inet6 a p s => exact ⟨rfl, rfl⟩

theorem digit_of_mem_decimal {n : ℕ} {b : UInt8} (h : b ∈ decimal n) : 0x30 ≤ b.toNat ∧ b.toNat ≤ 0x39 := by
  obtain ⟨c, hc, rfl⟩ := List.mem_map.mp h
  have hd := Nat.isDigit_of_mem_toDigits (by decide) (by decide) hc
  rw [Char.isDigit, Bool.and_eq_true, decide_eq_true_eq, decide_eq_true_eq] at hd
  have hlo : 48 ≤ c.toNat := hd.1
  have hhi : c.toNat ≤ 57 := hd.2
  rw [UInt8.toNat_ofNat']
  omega

theorem map_decimal (n : ℕ) : (decimal n).map (fun b => Char.ofNat b.toNat) = Nat.toDigits 10 n := by
  unfold decimal
  rw [List.map_map]
  refine (List.map_congr_left fun c hc => ?_).trans (List.map_id _)
  have hb := (digit_of_mem_decimal (List.mem_map_of_mem (f := fun c => UInt8.ofNat c.toNat) hc)).2
  have hd := Nat.isDigit_of_mem_toDigits (by decide) (by decide) hc
  rw [Char.isDigit, Bool.and_eq_true, decide_eq_true_eq, decide_eq_true_eq] at hd
  have hhi : c.toNat ≤ 57 := hd.2
  show Char.ofNat (UInt8.ofNat c.toNat).toNat = c
  rw [UInt8.toNat_ofNat', Nat.mod_eq_of_lt (by omega), Char.ofNat_toNat]

theorem decimal_injective : Function.Injective decimal := by
  intro n m h
  have hdigits : Nat.toDigits 10 n = Nat.toDigits 10 m := by
    rw [← map_decimal n, h, map_decimal]
  rw [← @Nat.ofDigitChars_ten_toDigits n, hdigits, Nat.ofDigitChars_ten_toDigits]

/-- The last separator splits a string in one way. -/
theorem append_cons_inj_of_notMem_right {α : Type} {u v x y : List α} {a : α} (hx : a ∉ x) (hy : a ∉ y)
    (h : u ++ a :: x = v ++ a :: y) : u = v ∧ x = y := by
  rcases List.append_eq_append_iff.mp h with ⟨t, rfl, ht⟩ | ⟨t, rfl, ht⟩
  · rcases t with _ | ⟨b, t⟩
    · exact ⟨(List.append_nil u).symm, (List.cons.inj ht).2⟩
    · refine absurd ?_ hx
      rw [(List.cons.inj ht).2]
      exact List.mem_append_right t List.mem_cons_self
  · rcases t with _ | ⟨b, t⟩
    · exact ⟨List.append_nil v, (List.cons.inj ht).2.symm⟩
    · refine absurd ?_ hy
      rw [(List.cons.inj ht).2]
      exact List.mem_append_right t List.mem_cons_self

/-- A colon and a port end a printed address in one way. -/
theorem port_inj {u v : Bytes} {p p' : ℕ} (h : u ++ 0x3A :: decimal p = v ++ 0x3A :: decimal p') :
    u = v ∧ p = p' := by
  have hcolon : ∀ n, (0x3A : UInt8) ∉ decimal n := by
    intro n hn
    have hle := (digit_of_mem_decimal hn).2
    exact absurd hle (by decide)
  obtain ⟨huv, hp⟩ := append_cons_inj_of_notMem_right (hcolon p) (hcolon p') h
  exact ⟨huv, decimal_injective hp⟩

/-- **What the printed address tells apart**: everything but the scope id. -/
theorem addrToString_eq_iff {inet : Inet} (hi : LawfulInet inet) {a b : SockAddr} :
    addrToString inet a = addrToString inet b ↔ SameUpToScope a b := by
  have hno : ∀ x p, (0x5B : UInt8) ∉ addrToString inet (.inet x p) := by
    intro x p h
    rcases List.mem_append.mp h with h | h
    · rcases List.mem_append.mp h with h | h
      · exact hi.ntop4_plain x h
      · exact absurd (List.mem_singleton.mp h) (by decide)
    · exact absurd (digit_of_mem_decimal h).2 (by decide)
  have hcolon : ∀ x p, (0x3A : UInt8) ∈ addrToString inet (.inet x p) := fun x p =>
    List.mem_append_left _ (List.mem_append_right _ (List.mem_singleton_self _))
  have hbracket : ∀ x p i, (0x5B : UInt8) ∈ addrToString inet (.inet6 x p i) := fun x p i =>
    List.mem_cons_self
  have hdash : ∀ p, ∀ b ∈ addrToString inet (.unspec p), b ≠ 0x3A ∧ b ≠ 0x5B := by
    intro p b hb
    obtain rfl := List.mem_singleton.mp hb
    decide
  have hend : ∀ l d : Bytes, l ++ [0x5D, 0x3A] ++ d = (l ++ [0x5D]) ++ 0x3A :: d := fun l d => by
    rw [List.append_assoc, List.append_assoc]
    rfl
  constructor
  · intro h
    rcases a with p | ⟨x, p⟩ | ⟨x, p, i⟩ <;> rcases b with p' | ⟨x', p'⟩ | ⟨x', p', i'⟩
    · trivial
    · exact absurd rfl (hdash _ _ (h ▸ hcolon x' p')).1
    · exact absurd rfl (hdash _ _ (h ▸ hbracket x' p' i')).2
    · exact absurd rfl (hdash _ _ (h ▸ hcolon x p)).1
    · have h : inet.ntop4 x ++ [0x3A] ++ decimal p = inet.ntop4 x' ++ [0x3A] ++ decimal p' := h
      rw [List.append_assoc, List.append_assoc] at h
      obtain ⟨hx, hp⟩ := port_inj h
      exact ⟨hi.ntop4_injective hx, hp⟩
    · exact absurd (h ▸ hbracket x' p' i') (hno x p)
    · exact absurd rfl (hdash _ _ (h ▸ hbracket x p i)).2
    · exact absurd (h ▸ hbracket x p i) (hno x' p')
    · have h : inet.ntop6 x ++ [0x5D, 0x3A] ++ decimal p = inet.ntop6 x' ++ [0x5D, 0x3A] ++ decimal p' :=
        (List.cons.inj h).2
      rw [hend, hend] at h
      obtain ⟨hx, hp⟩ := port_inj h
      exact ⟨hi.ntop6_injective (List.append_cancel_right hx), hp⟩
  · intro h
    rcases a with p | ⟨x, p⟩ | ⟨x, p, i⟩ <;> rcases b with p' | ⟨x', p'⟩ | ⟨x', p', i'⟩
    all_goals first
      | exact h.elim
      | rfl
      | obtain ⟨rfl, rfl⟩ := h
        rfl

/-! ### Who a datagram is handed to -/

variable {g : Setup} {s : Sys} {log : List (Op Fd)} {e : Event} {p : WorkPtr} {r : Received}
  {ra : ReplyAddr} {out : Bytes}

/-- The event hands the datagram to the work at `p`. -/
def Handed (g : Setup) (s : Sys) (e : Event) (p : WorkPtr) (r : Received) : Prop :=
  (∃ now conn outs, e = .listenRead r now conn outs) ∧ r.sBuffer ≠ [] ∧
    (step g e s).1.server.spWorkManager.lookup (addrToString g.inet r.addrClient) = some p

/-- It is a query with ID `n`. -/
def IsQuery (n : ℕ) (r : Received) : Prop := 2 ≤ r.sBuffer.length ∧ queryID r.sBuffer = n

/-- **The events that share no work**: when a datagram comes, no work is there for a client that differs
from its sender in the scope id alone. -/
def OwnScope (s : Sys) : Event → Prop
  | .listenRead r _ _ _ => r.sBuffer ≠ [] → ∀ x ∈ s.server.heap.entries,
      SameUpToScope x.2.raReply.ssClient r.addrClient → x.2.raReply.ssClient = r.addrClient
  | _ => True

instance (s : Sys) : ∀ e : Event, Decidable (OwnScope s e)
  | .listenRead r _ _ _ => inferInstanceAs (Decidable (r.sBuffer ≠ [] → ∀ x ∈ s.server.heap.entries,
      SameUpToScope x.2.raReply.ssClient r.addrClient → x.2.raReply.ssClient = r.addrClient))
  | .listenWrite _ | .upstreamError _ | .upstreamRead _ _ _ | .upstreamWrite _ _ | .closeIdle
  | .clearTimeout _ | .exitAndClear => isTrue trivial

section Datagram

variable {now : ℕ} {conn : ℕ → ConnectOutcome} {outs : ℕ → SendOutcome}

theorem handed_stored (ho : Owned s.server s.kernel log)
    (hl : LawfulStep g s (.listenRead r now conn outs)) (hb : r.sBuffer ≠ [])
    (hp : s.server.spWorkManager.lookup (addrToString g.inet r.addrClient) = some p) :
    Handed g s (.listenRead r now conn outs) p r :=
  ⟨⟨now, conn, outs, rfl⟩, hb, (kept_step ho hl id).works _ _ hp⟩

theorem handed_new (ho : Owned s.server s.kernel log)
    (hl : LawfulStep g s (.listenRead r now conn outs)) (hb : r.sBuffer ≠ [])
    (hkey : addrToString g.inet r.addrClient ∉ s.server.spWorkManager) :
    Handed g s (.listenRead r now conn outs) s.server.nextPtr r := by
  refine ⟨⟨now, conn, outs, rfl⟩, hb, ?_⟩
  show (s.server.onListenRead g r now conn outs).1.spWorkManager.lookup _ = _
  rcases onListenRead_cases ho hl with ⟨hno, -⟩ | ⟨-, p', hp', -⟩ | ⟨-, -, -, he⟩
  · exact absurd hno hb
  · exact absurd (mem_of_lookup hp') hkey
  · rw [he, (managers_workEvent _ _ _ _ _).2]
    exact AList.lookup_insert _

end Datagram

/-- A datagram is handed to a work that is there, or to the next. -/
theorem handed_cases (ho : Owned s.server s.kernel log) (hl : LawfulStep g s e) (h : Handed g s e p r) :
    s.server.spWorkManager.lookup (addrToString g.inet r.addrClient) = some p ∨
      p = s.server.nextPtr ∧ (step g e s).1.server.nextPtr = s.server.nextPtr + 1 := by
  obtain ⟨⟨now, conn, outs, rfl⟩, -, h⟩ := h
  have h : (s.server.onListenRead g r now conn outs).1.spWorkManager.lookup _ = some p := h
  show _ ∨ _ ∧ (s.server.onListenRead g r now conn outs).1.nextPtr = _
  rcases onListenRead_cases ho hl with ⟨-, he⟩ | ⟨-, p', -, he⟩ | ⟨-, hkey, -, he⟩ <;> rw [he] at h ⊢
  · exact Or.inl h
  · rw [(managers_workEvent _ _ _ _ _).2] at h
    exact Or.inl h
  · rw [(managers_workEvent _ _ _ _ _).2] at h
    rcases lookup_insert_cases h with ⟨-, rfl⟩ | ⟨hne, -⟩
    · obtain ⟨heap, queue, idle, hs⟩ := server_workEvent g.zones .sent s.server.nextPtr
        (.recv r.localAddr r.sBuffer now outs) (withWork g r conn s.server)
      refine Or.inr ⟨rfl, ?_⟩
      dsimp only
      rw [hs]
      rfl
    · exact absurd rfl hne

/-- Addresses of works are not used again. -/
theorem nextPtr_le_step (ho : Owned s.server s.kernel log) (hl : LawfulStep g s e) :
    s.server.nextPtr ≤ (step g e s).1.server.nextPtr := by
  have hwork : ∀ o p e' (s' : Server), (s'.workEvent g.zones o p e').1.nextPtr = s'.nextPtr := by
    intro o p e' s'
    obtain ⟨heap, queue, idle, hs⟩ := server_workEvent g.zones o p e' s'
    rw [hs]
  have hclose : ∀ f keys, (s.server.closeEach f keys).1.nextPtr = s.server.nextPtr := by
    intro f keys
    obtain ⟨conns, works, heap, hs⟩ := server_closeEach f keys s.server
    rw [hs]
  by_cases hc : Closes e
  · cases e with
    | closeIdle => exact (hclose _ _).ge
    | clearTimeout now => exact (hclose _ _).ge
    | exitAndClear => exact (hclose _ _).ge
    | _ => exact hc.elim
  · rcases server_step ho hl hc with ⟨queue, hs⟩ | ⟨o, p, e', -, hs⟩ |
      ⟨r, now, conn, outs, -, -, ⟨p, -, hs⟩ | ⟨-, -, hs⟩⟩ <;> rw [hs]
    · exact (hwork _ _ _ _).ge
    · exact (hwork _ _ _ _).ge
    · rw [hwork]
      exact Nat.le_succ _

/-- **What an event makes of the work of a client**: its address stays, and what becomes pending is a query
that the event hands to it. -/
theorem client_step (ho : Owned s.server s.kernel log) (hl : LawfulStep g s e) {w : DNSQureyWork}
    (hw : (step g e s).1.server.heap.lookup p = some w) :
    (∃ w₀, s.server.heap.lookup p = some w₀ ∧ w.raReply.ssClient = w₀.raReply.ssClient ∧
      w.sKey = w₀.sKey ∧ ∀ n, pending w n ≠ none →
        pending w₀ n ≠ none ∨ ∃ r, Handed g s e p r ∧ IsQuery n r) ∨
    p = s.server.nextPtr ∧ ∃ r, Handed g s e p r ∧ w.raReply.ssClient = r.addrClient ∧
      w.sKey = addrToString g.inet r.addrClient ∧ ∀ n, pending w n ≠ none → IsQuery n r := by
  cases work_step ho hl hw with
  | kept hw₀ => exact Or.inl ⟨w, hw₀, rfl, rfl, fun n hn => Or.inl hn⟩
  | @upstream _ e' w₀ hw₀ he =>
    refine Or.inl ⟨w₀, hw₀, ssClient_step _ _ _, sKey_step _ _ _, fun n hn => Or.inl ?_⟩
    refine (pending_or_asked hn).resolve_right ?_
    rintro ⟨l, d, now, outs, rfl, -⟩
    exact he l d now outs rfl
  | @datagram r now conn outs w₀ hw₀ hb hp =>
    refine Or.inl ⟨w₀, hw₀, ssClient_step _ _ _, sKey_step _ _ _, fun n hn => ?_⟩
    refine (pending_or_asked hn).imp_right ?_
    rintro ⟨l, d, now', outs', he, hq⟩
    cases he
    exact ⟨r, handed_stored ho hl hb hp, hq⟩
  | @client r now conn outs hp hb hkey hi =>
    subst hp
    refine Or.inr ⟨rfl, r, handed_new ho hl hb hkey, ssClient_step _ _ _, sKey_step _ _ _,
      fun n hn => ?_⟩
    obtain ⟨l, d, now', outs', he, hq⟩ := (pending_or_asked hn).resolve_left (not_not.mpr rfl)
    cases he
    exact hq

/-- Works are filed under the address of their client. -/
def Keyed (g : Setup) (s : Server) : Prop :=
  ∀ p w, s.heap.lookup p = some w → w.sKey = addrToString g.inet w.raReply.ssClient

theorem keyed_step (ho : Owned s.server s.kernel log) (hl : LawfulStep g s e) (hk : Keyed g s.server) :
    Keyed g (step g e s).1.server := by
  intro p w hw
  rcases client_step ho hl hw with ⟨w₀, hw₀, haddr, hkey, -⟩ | ⟨-, r, -, haddr, hkey, -⟩
  · rw [hkey, haddr]
    exact hk p w₀ hw₀
  · rw [hkey, haddr]

theorem Handed.unique {p' : WorkPtr} {r' : Received} (h : Handed g s e p r) (h' : Handed g s e p' r') :
    r = r' := by
  obtain ⟨⟨now, conn, outs, he⟩, -⟩ := h
  obtain ⟨⟨now', conn', outs', he'⟩, -⟩ := h'
  cases he.symm.trans he'
  rfl

theorem Handed.work (ho : Owned s.server s.kernel log) (hl : LawfulStep g s e) (h : Handed g s e p r) :
    ∃ w, (step g e s).1.server.heap.lookup p = some w := by
  obtain ⟨w, hw, -⟩ := ((owned_step ho hl).stored _ _).mp h.2.2
  exact ⟨w, hw⟩

/-- **When a datagram is handed to a work of its sender**: in a step that shares no work, and in no
other. -/
theorem own_address_iff (hi : LawfulInet g.inet) (ho : Owned s.server s.kernel log)
    (hl : LawfulStep g s e) (hk : Keyed g s.server) :
    OwnScope s e ↔ ∀ p r w, Handed g s e p r → (step g e s).1.server.heap.lookup p = some w →
      w.raReply.ssClient = r.addrClient := by
  constructor
  · intro hown p r w hr hw
    rcases client_step ho hl hw with ⟨w₀, hw₀, haddr, -⟩ | ⟨-, r', hr', haddr, -⟩
    · rcases handed_cases ho hl hr with hp | ⟨rfl, -⟩
      · obtain ⟨w₁, hw₁, hkey⟩ := (ho.stored _ _).mp hp
        obtain rfl := Option.some.inj (hw₀.symm.trans hw₁)
        rw [hk p w₀ hw₀] at hkey
        obtain ⟨⟨now, conn, outs, rfl⟩, hb, -⟩ := hr
        rw [haddr]
        exact hown hb ⟨p, w₀⟩ (AList.mem_lookup_iff.mp hw₀) ((addrToString_eq_iff hi).mp hkey)
      · exact absurd (mem_of_lookup hw₀) ho.nextPtr_notMem
    · rw [haddr, hr'.unique hr]
  · intro h
    cases e with
    | listenRead r now conn outs =>
      rintro hb ⟨p, w₀⟩ hx hsame
      have hw₀ : s.server.heap.lookup p = some w₀ := AList.mem_lookup_iff.mpr hx
      have hkey : w₀.sKey = addrToString g.inet r.addrClient :=
        (hk p w₀ hw₀).trans ((addrToString_eq_iff hi).mpr hsame)
      have hp := (ho.stored _ _).mpr ⟨w₀, hw₀, hkey⟩
      have hr := handed_stored ho hl hb hp
      obtain ⟨w, hw⟩ := hr.work ho hl
      rcases client_step ho hl hw with ⟨w₁, hw₁, haddr, -⟩ | ⟨rfl, -⟩
      · obtain rfl := Option.some.inj (hw₀.symm.trans hw₁)
        exact haddr.symm.trans (h p r w hr hw)
      · exact absurd (mem_of_lookup hw₀) ho.nextPtr_notMem
    | _ => trivial

/-! ### Answers -/

/-- The event is a datagram of an upstream with which the work at `p` answers its query with ID `n`. -/
def Answers (g : Setup) (s : Sys) (e : Event) (p : WorkPtr) (n : ℕ) (ra : ReplyAddr) (out : Bytes) : Prop :=
  ∃ fd d o c w, e = .upstreamRead fd d o ∧ s.server.spConnectionManager.lookup fd = some c ∧ c.work = p ∧
    s.server.heap.lookup p = some w ∧ replyID d = n ∧
    Call.sendTo ra out ∈ (Work.Query.step g.zones (.read c.nIndex d) w).2

theorem Answers.work {n : ℕ} (h : Answers g s e p n ra out) : ∃ w, s.server.heap.lookup p = some w ∧
    pending w n ≠ none ∧ ra.ssClient = w.raReply.ssClient := by
  obtain ⟨fd, d, o, c, w, -, -, -, hw, rfl, hc⟩ := h
  obtain ⟨i, d', wi, he, -, hp, rfl, -⟩ := mem_sendTo_step.mp hc
  cases he
  exact ⟨w, hw, by simp [hp], rfl⟩

theorem mem_queue_performAll {o : SendOutcome} {cs : List Call} {s : Server} {d : ReplyAddr × Bytes}
    (h : d ∈ (s.performAll o cs).1.lsSendQueue) : d ∈ s.lsSendQueue ∨ Call.sendTo d.1 d.2 ∈ cs := by
  induction cs generalizing s with
  | nil => exact Or.inl h
  | cons c cs ih =>
    rcases ih h with h | h
    · cases c with
      | sendTo ra out =>
        have h : d ∈ (s.sendTo o ra out).1.lsSendQueue := h
        unfold Server.sendTo at h
        dsimp only at h
        split_ifs at h
        · exact Or.inl h
        · exact Or.inl h
        · rcases List.mem_append.mp h with h | h
          · exact Or.inl h
          · cases List.mem_singleton.mp h
            exact Or.inr List.mem_cons_self
      | _ => exact Or.inl h
    · exact Or.inr (List.mem_cons_of_mem _ h)

/-- What an event of a work sends to clients or leaves to be sent was to be sent, or is a call of the
work. -/
theorem sendTo_of_workEvent {zones : Zones} {o : SendOutcome} {e : Work.Query.Event} {s : Server}
    (h : .sendReply ra out ∈ (s.workEvent zones o p e).2 ∨
      (ra, out) ∈ (s.workEvent zones o p e).1.lsSendQueue) :
    (ra, out) ∈ s.lsSendQueue ∨ ∃ w, s.heap.lookup p = some w ∧
      Call.sendTo ra out ∈ (Work.Query.step zones e w).2 := by
  rcases h with h | h
  · obtain ⟨w, c, hw, hc, hp⟩ := mem_workEvent h
    cases hp
    exact Or.inr ⟨w, hw, hc⟩
  · unfold Server.workEvent at h
    rcases hw : s.heap.lookup p with _ | w <;> simp only [hw] at h
    · exact Or.inl h
    · exact (mem_queue_performAll h).imp_right fun h => ⟨w, rfl, h⟩

theorem sendTo_of_session {zones : Zones} {o : SendOutcome} {fd : Fd} {e : ℕ → Work.Query.Event}
    {s : Server} (h : .sendReply ra out ∈ (s.session zones o fd e).2 ∨
      (ra, out) ∈ (s.session zones o fd e).1.lsSendQueue) :
    (ra, out) ∈ s.lsSendQueue ∨ ∃ c w, s.spConnectionManager.lookup fd = some c ∧
      s.heap.lookup c.work = some w ∧ Call.sendTo ra out ∈ (Work.Query.step zones (e c.nIndex) w).2 := by
  rcases session_cases zones o fd e s with ⟨-, he⟩ | ⟨c, hc, he⟩ <;> rw [he] at h
  · refine Or.inl (h.resolve_left fun h => ?_)
    cases List.mem_singleton.mp h
  · exact (sendTo_of_workEvent h).imp_right fun ⟨w, hw, hx⟩ => ⟨c, w, hc, hw, hx⟩

theorem sendReply_notMem_closeEach {f : DNSQureyWork → Bool} {keys : List Bytes} {s : Server} :
    .sendReply ra out ∉ (s.closeEach f keys).2 := by
  intro hx
  obtain ⟨fd, hx | hx⟩ := mem_closeEach hx
  all_goals cases hx

/-- **What is sent to clients or is left to be sent** was to be sent, or is an answer of the event. -/
theorem answers_step (ho : Owned s.server s.kernel log) (hl : LawfulStep g s e)
    (h : .sendReply ra out ∈ (step g e s).2 ∨ (ra, out) ∈ (step g e s).1.server.lsSendQueue) :
    (ra, out) ∈ s.server.lsSendQueue ∨ ∃ p n, Answers g s e p n ra out := by
  have hrecv : ∀ {o p l d now outs} {s' : Server}, s'.lsSendQueue = s.server.lsSendQueue →
      (.sendReply ra out ∈ (s'.workEvent g.zones o p (.recv l d now outs)).2 ∨
        (ra, out) ∈ (s'.workEvent g.zones o p (.recv l d now outs)).1.lsSendQueue) →
      (ra, out) ∈ s.server.lsSendQueue := by
    intro o p l d now outs s' hs' h
    rw [← hs']
    refine (sendTo_of_workEvent h).resolve_right ?_
    rintro ⟨w, -, hc⟩
    obtain ⟨i, d', wi, he, -⟩ := mem_sendTo_step.mp hc
    cases he
  have hclose : ∀ {f keys}, (.sendReply ra out ∈ (s.server.closeEach f keys).2 ∨
      (ra, out) ∈ (s.server.closeEach f keys).1.lsSendQueue) → (ra, out) ∈ s.server.lsSendQueue := by
    intro f keys h
    rcases h with h | h
    · exact absurd h sendReply_notMem_closeEach
    · obtain ⟨conns, works, heap, hs⟩ := server_closeEach f keys s.server
      rwa [hs] at h
  cases e with
  | listenRead r now conn outs =>
    have h : .sendReply ra out ∈ (s.server.onListenRead g r now conn outs).2 ∨
      (ra, out) ∈ (s.server.onListenRead g r now conn outs).1.lsSendQueue := h
    refine Or.inl ?_
    rcases onListenRead_cases ho hl with ⟨-, he⟩ | ⟨-, p', -, he⟩ | ⟨-, -, -, he⟩ <;> rw [he] at h
    · exact h.resolve_left List.not_mem_nil
    · exact hrecv rfl h
    · refine @hrecv _ _ _ _ _ _ (withWork g r conn s.server) rfl (h.imp_left fun h => ?_)
      refine (List.mem_append.mp h).resolve_left fun h => ?_
      obtain ⟨fd, hx | hx | hx⟩ := mem_initLoop h
      all_goals cases hx
  | listenWrite outs =>
    refine Or.inl ?_
    rcases h with h | h
    · rcases mem_onListenWrite h with ⟨ra', d, hq, he⟩ | ⟨b, he⟩ <;> cases he
      exact hq
    · exact DNSConnect.mem_writeLoop (Or.inr h)
  | upstreamError fd =>
    refine (sendTo_of_session h).imp_right ?_
    rintro ⟨c, w, -, -, hc⟩
    obtain ⟨i, d, wi, he, -⟩ := mem_sendTo_step.mp hc
    cases he
  | upstreamRead fd d o =>
    refine (sendTo_of_session h).imp_right ?_
    rintro ⟨c, w, hc, hw, hx⟩
    exact ⟨c.work, replyID d, fd, d, o, c, w, rfl, hc, rfl, hw, rfl, hx⟩
  | upstreamWrite fd outs =>
    refine (sendTo_of_session h).imp_right ?_
    rintro ⟨c, w, -, -, hc⟩
    obtain ⟨i, d, wi, he, -⟩ := mem_sendTo_step.mp hc
    cases he
  | closeIdle => exact Or.inl (hclose h)
  | clearTimeout now => exact Or.inl (hclose h)
  | exitAndClear => exact Or.inl (hclose h)

/-! ### Runs -/

variable {fdListen : Fd} {kernel : Kernel} {tr : List (Entry Sys Event (List Effect))}

/-- The answer is one that a work has given to its query, and goes where every datagram handed to the work
before came from. -/
def Answered (g : Setup) (tr : List (Entry Sys Event (List Effect))) (ra : ReplyAddr) (out : Bytes) :
    Prop :=
  ∃ tr₁ y tr₀ p n, tr = tr₁ ++ y :: tr₀ ∧ Answers g y.before y.event p n ra out ∧
    (∃ x ∈ tr₀, ∃ r, Handed g x.before x.event p r ∧ IsQuery n r) ∧
    ∀ x ∈ tr₀, ∀ r, Handed g x.before x.event p r → r.addrClient = ra.ssClient

theorem Answered.cons (h : Answered g tr ra out) (x : Entry Sys Event (List Effect)) :
    Answered g (x :: tr) ra out := by
  obtain ⟨tr₁, y, tr₀, p, n, rfl, hrest⟩ := h
  exact ⟨x :: tr₁, y, tr₀, p, n, rfl, hrest⟩

/-- **The invariant**: the works that datagrams were handed to have the address of the senders, what is
pending was asked, and what is left to be sent is an answer. -/
structure Served (g : Setup) (tr : List (Entry Sys Event (List Effect))) (s : Sys) : Prop where
  handed : ∀ x ∈ tr, ∀ p r, Handed g x.before x.event p r → p < s.server.nextPtr ∧
    ∀ w, s.server.heap.lookup p = some w → w.raReply.ssClient = r.addrClient
  alike : ∀ x ∈ tr, ∀ y ∈ tr, ∀ p r r', Handed g x.before x.event p r →
    Handed g y.before y.event p r' → r.addrClient = r'.addrClient
  keyed : Keyed g s.server
  asked : ∀ p w n, s.server.heap.lookup p = some w → pending w n ≠ none →
    ∃ x ∈ tr, ∃ r, Handed g x.before x.event p r ∧ IsQuery n r
  queued : ∀ ra out, (ra, out) ∈ s.server.lsSendQueue → Answered g tr ra out

theorem Served.answered (h : Served g tr s) (ho : Owned s.server s.kernel log) (hl : LawfulStep g s e)
    (hs : .sendReply ra out ∈ (step g e s).2 ∨ (ra, out) ∈ (step g e s).1.server.lsSendQueue) :
    Answered g (⟨s, e, (step g e s).2⟩ :: tr) ra out := by
  rcases answers_step ho hl hs with hq | ⟨p, n, ha⟩
  · exact (h.queued ra out hq).cons _
  · obtain ⟨w, hw, hn, haddr⟩ := ha.work
    refine ⟨[], _, tr, p, n, rfl, ha, h.asked p w n hw hn, fun x hx r hr => ?_⟩
    rw [haddr]
    exact ((h.handed x hx p r hr).2 w hw).symm

theorem served_step (hi : LawfulInet g.inet) (ho : Owned s.server s.kernel log) (h : Served g tr s)
    (hl : LawfulStep g s e) (hown : OwnScope s e) :
    Served g (⟨s, e, (step g e s).2⟩ :: tr) (step g e s).1 := by
  have hhanded : ∀ x ∈ (⟨s, e, (step g e s).2⟩ :: tr : List (Entry Sys Event (List Effect))), ∀ p r,
      Handed g x.before x.event p r → p < (step g e s).1.server.nextPtr ∧
        ∀ w, (step g e s).1.server.heap.lookup p = some w → w.raReply.ssClient = r.addrClient := by
    intro x hx p r hr
    rcases List.mem_cons.mp hx with rfl | hx
    · obtain ⟨w, hw⟩ := hr.work ho hl
      refine ⟨(owned_step ho hl).next p (mem_of_lookup hw), fun w hw => ?_⟩
      exact (own_address_iff hi ho hl h.keyed).mp hown p r w hr hw
    · obtain ⟨hlt, haddr⟩ := h.handed x hx p r hr
      refine ⟨hlt.trans_le (nextPtr_le_step ho hl), fun w hw => ?_⟩
      rcases client_step ho hl hw with ⟨w₀, hw₀, hsame, -⟩ | ⟨rfl, -⟩
      · exact hsame.trans (haddr w₀ hw₀)
      · exact absurd hlt (lt_irrefl _)
  have hnew : ∀ y ∈ (⟨s, e, (step g e s).2⟩ :: tr : List (Entry Sys Event (List Effect))), ∀ p r r',
      Handed g s e p r → Handed g y.before y.event p r' → r.addrClient = r'.addrClient := by
    intro y hy p r r' hr hr'
    obtain ⟨w, hw⟩ := hr.work ho hl
    exact ((hhanded _ List.mem_cons_self p r hr).2 w hw).symm.trans ((hhanded y hy p r' hr').2 w hw)
  refine ⟨hhanded, fun x hx y hy p r r' hr hr' => ?_, keyed_step ho hl h.keyed,
    fun p w n hw hn => ?_, fun ra out hq => h.answered ho hl (Or.inr hq)⟩
  · rcases List.mem_cons.mp hx with rfl | hx
    · exact hnew y hy p r r' hr hr'
    · rcases List.mem_cons.mp hy with rfl | hy
      · exact (hnew x (List.mem_cons_of_mem _ hx) p r' r hr' hr).symm
      · exact h.alike x hx y hy p r r' hr hr'
  · rcases client_step ho hl hw with ⟨w₀, hw₀, -, -, hask⟩ | ⟨-, r, hr, -, -, hask⟩
    · rcases hask n hn with hn | ⟨r, hr, hq⟩
      · obtain ⟨x, hx, r, hr⟩ := h.asked p w₀ n hw₀ hn
        exact ⟨x, List.mem_cons_of_mem _ hx, r, hr⟩
      · exact ⟨_, List.mem_cons_self, r, hr, hq⟩
    · exact ⟨_, List.mem_cons_self, r, hr, hask n hn⟩

theorem served_run (hi : LawfulInet g.inet)
    (h : Run (step g) (fun s e => LawfulStep g s e ∧ OwnScope s e) (Sys.start fdListen kernel) tr s) :
    Served g tr s := by
  induction h with
  | start =>
    refine ⟨fun x hx => absurd hx List.not_mem_nil, fun x hx => absurd hx List.not_mem_nil,
      fun p w hw => ?_, fun p w n hw => ?_, fun ra out hq => absurd hq List.not_mem_nil⟩
    all_goals cases hw
  | next e hrun hok ih => exact served_step hi (owned_run (hrun.mono fun _ _ h => h.1)) ih hok.1 hok.2

/-- **Answers go back to the client that asked**, in every run in which no datagram comes while a work is
there for a client that differs from its sender in the scope id alone: the datagrams that are handed to a
work all come from one address, and what is sent is an answer of a work to a query it was handed, to the
address that this query came from. -/
theorem answers_to_asker (hi : LawfulInet g.inet)
    (h : Run (step g) (fun s e => LawfulStep g s e ∧ OwnScope s e) (Sys.start fdListen kernel) tr s) :
    (∀ x ∈ tr, ∀ y ∈ tr, ∀ p r r', Handed g x.before x.event p r → Handed g y.before y.event p r' →
      r.addrClient = r'.addrClient) ∧
    ∀ tr₁ x tr₀, tr = tr₁ ++ x :: tr₀ → ∀ ra out, .sendReply ra out ∈ x.out →
      Answered g (x :: tr₀) ra out := by
  refine ⟨(served_run hi h).alike, fun tr₁ ⟨s, e, o⟩ tr₀ he ra out hs => ?_⟩
  obtain ⟨hrun, hok, hout⟩ := h.at_entry he
  have hout : o = (step g e s).2 := hout
  subst hout
  exact (served_run hi hrun).answered (owned_run (hrun.mono fun _ _ h => h.1)) hok.1 (Or.inl hs)

/-! ### Two clients -/

/-- `fe80::1`. -/
def linkLocal : IPv6Addr := ⟨[0xFE, 0x80, 0, 0, 0, 0, 0, 0, 0, 0, 0, 0, 0, 0, 0, 1], rfl⟩

/-- One zone, and the text of that address. -/
def linkLocalZone : Setup where
  zones := [{}]
  inet := {
    pton4 := fun _ => none
    pton6 := fun _ => none
    ntop4 := fun a => decimal a.toNat
    ntop6 := fun a => if a = linkLocal then [0x66, 0x65, 0x38, 0x30, 0x3A, 0x3A, 0x31] else a.cAddr }

theorem lawful_linkLocalZone : LawfulInet linkLocalZone.inet := by
  refine ⟨fun a b h => UInt32.toNat_inj.mp (decimal_injective h), fun a b h => ?_, fun a ha => ?_⟩
  · have h : (if a = linkLocal then [0x66, 0x65, 0x38, 0x30, 0x3A, 0x3A, 0x31] else a.cAddr) =
        (if b = linkLocal then [0x66, 0x65, 0x38, 0x30, 0x3A, 0x3A, 0x31] else b.cAddr) := h
    have hlen := congrArg List.length h
    split_ifs at h hlen with ha hb hb
    · rw [ha, hb]
    · rw [b.length_cAddr] at hlen
      cases hlen
    · rw [a.length_cAddr] at hlen
      cases hlen
    · rcases a with ⟨ca, la⟩
      rcases b with ⟨cb, lb⟩
      cases h
      rfl
  · exact absurd (digit_of_mem_decimal ha).2 (by decide)

/-- A datagram of that address on an interface. -/
def onInterface (scopeId : ℕ) (sBuffer : Bytes) : Received := ⟨.inet6 linkLocal 5353 scopeId, none, sBuffer⟩

/-- A query on an interface, with its answer, and one on another when the work is closed. -/
def oneAfterOther : List Event :=
  [.listenRead (onInterface 2 (query 5 [97] 1)) 0 (fun _ => .connected 5) fun _ => .sent,
    .upstreamRead 5 (emptyReply 5 [97] 1) .sent, .closeIdle,
    .listenRead (onInterface 3 (query 6 [97] 1)) 9 (fun _ => .connected 5) fun _ => .sent,
    .upstreamRead 5 (emptyReply 6 [97] 1) .sent]

theorem answers_to_asker_oneAfterOther :
    Answered linkLocalZone (exec (step linkLocalZone) oneAfterOther [] (Sys.start 3 kernel0)).1
      { ssClient := .inet6 linkLocal 5353 3 } (emptyReply 6 [97] 1) := by
  have hok : Allowed (step linkLocalZone) (fun s e => LawfulStep linkLocalZone s e ∧ OwnScope s e)
      oneAfterOther (Sys.start 3 kernel0) := by decide +kernel
  exact (answers_to_asker lawful_linkLocalZone (Run.start.exec hok)).2 [] _ _ rfl _ _ (by decide +kernel)

/-- Two queries on two interfaces, and the answer to the second. -/
def scopeShared : List Event :=
  [.listenRead (onInterface 2 (query 5 [97] 1)) 0 (fun _ => .connected 5) fun _ => .sent,
    .listenRead (onInterface 3 (query 6 [97] 1)) 0 (fun _ => .connected 6) fun _ => .sent,
    .upstreamRead 5 (emptyReply 6 [97] 1) .sent]

/-- The second client asks while the work of the first is there, and its answer goes to the first. -/
theorem scope_shared : ¬ ∀ (g : Setup) (fdListen : Fd) (kernel : Kernel)
    (tr : List (Entry Sys Event (List Effect))) (s : Sys), LawfulInet g.inet →
    Run (step g) (LawfulStep g) (Sys.start fdListen kernel) tr s →
    (∀ x ∈ tr, ∀ y ∈ tr, ∀ p r r', Handed g x.before x.event p r → Handed g y.before y.event p r' →
      r.addrClient = r'.addrClient) ∧
    ∀ tr₁ x tr₀, tr = tr₁ ++ x :: tr₀ → ∀ ra out, .sendReply ra out ∈ x.out →
      Answered g (x :: tr₀) ra out := by
  intro h
  have hrun : Run (step linkLocalZone) (LawfulStep linkLocalZone) (Sys.start 3 kernel0)
      (exec (step linkLocalZone) scopeShared [] (Sys.start 3 kernel0)).1
      (exec (step linkLocalZone) scopeShared [] (Sys.start 3 kernel0)).2 :=
    Run.start.exec (by decide +kernel)
  obtain ⟨-, hans⟩ := h _ _ _ _ _ lawful_linkLocalZone hrun
  obtain ⟨tr₁, y, tr₀, p, n, htr, ⟨fd, d, o, c, w, he, hc, rfl, -⟩, -, hall⟩ :=
    hans [] _ _ rfl { ssClient := .inet6 linkLocal 5353 2 } (emptyReply 6 [97] 1) (by decide +kernel)
  rcases tr₁ with _ | ⟨z, tr₁⟩
  · obtain ⟨rfl, rfl⟩ := List.cons.inj htr
    cases he
    obtain rfl := Option.some.inj (hc.symm.trans (by decide +kernel : _ = some ⟨0, 0⟩))
    have haddr := hall _ List.mem_cons_self (onInterface 3 (query 6 [97] 1))
      ⟨⟨_, _, _, rfl⟩, by decide, by decide +kernel⟩
    exact absurd haddr (by decide)
  · have hy : y ∈ tr₁ ++ y :: tr₀ := List.mem_append_right _ List.mem_cons_self
    have htr := (List.cons.inj htr).2
    rw [← List.append_eq, ← htr] at hy
    rcases List.mem_pair.mp hy with rfl | rfl
    all_goals cases he

end DnsMultiZone.MainLoop.Clients
