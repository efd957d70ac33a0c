import DnsMultiZone.Work.Replies

/-! # The ID of a reply

A reply is filed under the ID that `ParseResponseA` has written, whether it parses or not. A datagram of two
bytes carries one. `Read` starts with ID 0, so one of a single byte is filed under that, and may be the
answer to a query with ID 0. A client's datagram that short is not handled.

* `replyID_eq`: what a datagram is filed under.
* `answers_carry_id`: without such a datagram for a pending query, answers carry their ID, and a query is
  changed by datagrams with its ID only.
* `one_byte_answered`: a query with ID 0 and a reply of one byte. -/

namespace DnsMultiZone.Work.ReplyID

open DnsMultiZone.Lib.BigEndian DnsMultiZone.Lib.Runs
open DnsMultiZone.Config.Address DnsMultiZone.Config.ConfigType
open DnsMultiZone.Rfc1035.Reader DnsMultiZone.Rfc1035.Parse DnsMultiZone.Rfc1035.Drop
open DnsMultiZone.Rfc1035.Question
open DnsMultiZone.Work.Connect DnsMultiZone.Work.Query DnsMultiZone.Work.Scan DnsMultiZone.Work.Steps
open DnsMultiZone.Work.Answers DnsMultiZone.Work.Replies

variable {zones : Zones} {w w₀ : DNSQureyWork} {tr : Trace} {n : ℕ} {d out : Bytes}

/-- The datagram carries the ID `n`. -/
def Carries (n : ℕ) (d : Bytes) : Prop := 2 ≤ d.length ∧ beNat (d.take 2) = n

instance (n : ℕ) (d : Bytes) : Decidable (Carries n d) := by unfold Carries; infer_instance

/-! ### What the parser writes -/

theorem uID_parseTypeClass (b : AutoBuffer) (o : Header) : (parseTypeClass b o).2.uID = o.uID := by
  unfold parseTypeClass
  rcases b.readUINT16 with _ | ⟨uType, b₁⟩
  · rfl
  dsimp only
  rcases b₁.readUINT16 with _ | ⟨uClass, b₂⟩ <;> rfl

theorem uID_parseCounts (b : AutoBuffer) (o : Header) : (parseCounts b o).2.uID = o.uID := by
  unfold parseCounts
  rcases b.readUINT16 with _ | ⟨uQuestions, b₁⟩
  · rfl
  dsimp only
  split_ifs
  · rfl
  rcases b₁.readUINT16 with _ | ⟨uAnswers, b₂⟩
  · rfl
  dsimp only
  rcases b₂.readUINT16 with _ | ⟨x, b₃⟩
  · rfl
  dsimp only
  rcases b₃.readUINT16 with _ | ⟨y, b₄⟩ <;> rfl

theorem uID_parse (b : AutoBuffer) (o : Header) :
    (parseRequestAAndAnswers b o).2.uID = (b.readUINT16.map Prod.fst).getD o.uID := by
  unfold parseRequestAAndAnswers
  rcases b.readUINT16 with _ | ⟨uID, b₁⟩
  · rfl
  dsimp only
  rcases b₁.readUINT16 with _ | ⟨uFlag, b₂⟩
  · rfl
  have hc := uID_parseCounts b₂ { o with uID, uFlag }
  dsimp only
  rcases hc₃ : parseCounts b₂ { o with uID, uFlag } with ⟨_ | b₃, o₃⟩ <;> rw [hc₃] at hc
  · exact hc
  dsimp only
  rcases getBufferName b₃ with ⟨_ | b₄, sName⟩
  · exact hc
  · exact (uID_parseTypeClass b₄ _).trans hc

/-- **What a datagram is filed under**: the number its first two bytes spell, and 0 if it is shorter. -/
theorem replyID_eq (d : Bytes) : replyID d = if 2 ≤ d.length then beNat (d.take 2) else 0 := by
  have hread : (assign d).readUINT16 = if h : 0 + 2 ≤ d.length then some (u16At d 0, ⟨d, 0 + 2, h⟩)
      else none := readUINT16_mk (Nat.zero_le _)
  have hid : replyID d = ((assign d).readUINT16.map Prod.fst).getD 0 :=
    (replyID_eq_asks d).trans (uID_parse (assign d) {})
  rw [hid, hread]
  by_cases h : 2 ≤ d.length
  · rw [dif_pos (by omega), if_pos h]
    rfl
  · rw [dif_neg (by omega), if_neg h]
    rfl

/-! ### What `SendResult` keeps -/

theorem carries_sendResult {i q : ℕ} (h : sendResult zones i q d = some out) (hc : Carries n d) :
    Carries n out := by
  rcases sendResult_cases h with rfl | hdrop
  · exact hc
  · rcases rewritten_of_dropAddress hdrop with rfl | ⟨b, o, hr⟩
    · exact hc
    · have hb := szOffset_of_parse hr.parses
      have hle := hr.le
      have h2 : ∀ s : Bytes, s.take 2 = (s.take 6).take 2 := fun s => by
        rw [List.take_take, min_eq_left (by omega)]
      refine ⟨by omega, ?_⟩
      rw [h2, hr.header, ← h2]
      exact hc.2

/-! ### Runs -/

/-- **The events that keep it so**: no datagram of one byte comes while a query with ID 0 is pending. -/
def FiledByID (w : DNSQureyWork) : Event → Prop
  | .read _ d => d.length = 1 → pending w 0 = none
  | _ => True

instance (w : DNSQureyWork) : ∀ e : Event, Decidable (FiledByID w e)
  | .read _ d => inferInstanceAs (Decidable (d.length = 1 → pending w 0 = none))
  | .recv _ _ _ _ | .disconnect _ | .write _ _ => isTrue trivial

/-- A datagram that is filed under a pending query carries its ID. -/
theorem carries_of_pending {i : ℕ} (h : FiledByID w (.read i d)) (hd : d ≠ [])
    (hp : pending w (replyID d) ≠ none) : Carries (replyID d) d := by
  have hid := replyID_eq d
  by_cases hl : 2 ≤ d.length
  · rw [if_pos hl] at hid
    exact ⟨hl, hid.symm⟩
  · have hpos := List.length_pos_iff.mpr hd
    rw [if_neg hl] at hid
    rw [hid] at hp
    exact absurd (h (by omega)) hp

/-- A datagram that does not carry the ID leaves the query as it is. -/
theorem pending_of_not_carries {i : ℕ} (h : FiledByID w (.read i d)) (hn : ¬ Carries n d) :
    pending (step zones (.read i d) w).1 n = pending w n := by
  rw [pending_step]
  show (if d = [] ∨ replyID d ≠ n then _ else _) = _
  split_ifs with ho
  · rfl
  obtain ⟨hd, hid⟩ := not_or.mp ho
  obtain rfl := not_not.mp hid
  rcases hp : pending w (replyID d) with _ | wi
  · rfl
  · refine absurd (carries_of_pending h hd ?_) hn
    rw [hp]
    exact Option.some_ne_none wi

/-- **Answers carry the ID they are for**, in every run in which no datagram of one byte comes while a query
with ID 0 is pending; and a datagram that does not carry an ID leaves the pending query with this ID as it
is. -/
theorem answers_carry_id (h : Run (step zones) FiledByID w₀ tr w) (h0 : Fresh w₀) :
    (∀ x ∈ tr, ∀ ra out, Call.sendTo ra out ∈ x.out →
      ∃ j d, x.event = .read j d ∧ Carries (replyID d) out) ∧
    ∀ x ∈ tr, ∀ i d n, x.event = .read i d → ¬ Carries n d →
      pending (step zones x.event x.before).1 n = pending x.before n := by
  have hany : Run (step zones) anyStep w₀ tr w := h.mono fun _ _ _ => trivial
  have hok : ∀ y ∈ tr, FiledByID y.before y.event := by
    intro y hy
    obtain ⟨tr', tr₀, rfl⟩ := List.append_of_mem hy
    exact (h.at_entry rfl).2.1
  refine ⟨fun x hx ra out ho => ?_, fun x hx i d n he hn => ?_⟩
  · obtain ⟨tr', tr₀, rfl⟩ := List.append_of_mem hx
    obtain ⟨j, d, mid, c, tr₁, q, i, d', he, rfl, -, hpend, hlast, hsend⟩ := answer_data hany h0 rfl ho
    obtain ⟨hd', hid, y, hy, hye⟩ := mem_of_lastReply hlast
    have hmem : y ∈ tr' ++ x :: (mid ++ c :: tr₁) := by
      refine List.mem_append_right _ ?_
      rcases List.mem_cons.mp hy with rfl | hy
      · exact List.mem_cons_self
      · exact List.mem_cons_of_mem _ (List.mem_append_left _ hy)
    have hfiled := hok y hmem
    rw [hye] at hfiled
    have hpy := hpend y hy
    rw [← hid] at hpy
    have hcarries := carries_of_pending hfiled hd' hpy
    rw [hid] at hcarries
    exact ⟨j, d, he, carries_sendResult hsend hcarries⟩
  · have hfiled := hok x hx
    rw [he] at hfiled ⊢
    exact pending_of_not_carries hfiled hn

/-- A query with ID 0, its answer, and a datagram of one byte after it. -/
theorem answers_carry_id_late : ∃ j d, Event.read 0 (emptyReply 0 [97] 1) = .read j d ∧
    Carries (replyID d) (emptyReply 0 [97] 1) := by
  have hrun : Run (step [{}]) FiledByID (freshWork 1) _ _ := Run.start.exec
    (show Allowed (step [{}]) FiledByID [.recv none (query 0 [97] 1) 0 fun _ => .sent,
      .read 0 (emptyReply 0 [97] 1), .read 0 [7]] (freshWork 1) by decide +kernel)
  exact (answers_carry_id hrun (fresh_freshWork 1)).1 _ (List.mem_cons_of_mem _ List.mem_cons_self)
    { ssClient := .inet 0x0A000002 5353 } (emptyReply 0 [97] 1) (by decide +kernel)

/-- A query with ID 0, and a datagram of one byte, which is the answer. -/
theorem one_byte_answered : ¬ ∀ (zones : Zones) (w₀ w : DNSQureyWork) (tr : Trace), Fresh w₀ →
    Run (step zones) anyStep w₀ tr w → ∀ x ∈ tr, ∀ ra out, Call.sendTo ra out ∈ x.out →
      ∃ j d, x.event = .read j d ∧ Carries (replyID d) out := by
  intro h
  have hall := h _ _ _ _ (fresh_freshWork 1) (run_exec (step [{}]) (freshWork 1)
    [.recv none (query 0 [97] 1) 0 fun _ => .sent, .read 0 [7]])
  obtain ⟨j, d, -, hc⟩ := hall _ List.mem_cons_self { ssClient := .inet 0x0A000002 5353 } [7]
    (by decide +kernel)
  exact absurd hc.1 (by decide)

end DnsMultiZone.Work.ReplyID
