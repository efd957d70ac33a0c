import DnsMultiZone.Work.Steps

/-! # The address answers leave from

A work keeps one reply address, and every datagram of the client sets its local part
(`SetLocalAddr`). So an answer leaves from the address the client's last datagram came to, whatever
query that was. It is the address a query came to exactly when the last datagram came to it too.

* `source_eq_iff`: every answer of every run, against every client datagram before it.
* `answer_from_other_address`: two queries to two addresses of the server. -/

namespace DnsMultiZone.Work.ReplyAddress

open DnsMultiZone.Lib.BigEndian DnsMultiZone.Lib.Runs
open DnsMultiZone.Config.Address DnsMultiZone.Config.ConfigType
open DnsMultiZone.Work.Connect DnsMultiZone.Work.Query DnsMultiZone.Work.Steps

variable {zones : Zones} {w w₀ : DNSQureyWork} {tr : List (Entry DNSQureyWork Event (List Call))}

/-- The local address a step received a datagram of the client on. -/
def localOf (x : Entry DNSQureyWork Event (List Call)) : Option (Option PktInfo) :=
  match x.event with
  | .recv l _ _ _ => some l
  | _ => none

/-- The local address the client's last datagram came to. -/
def lastLocal (tr : List (Entry DNSQureyWork Event (List Call))) : Option (Option PktInfo) :=
  tr.findSome? localOf

/-- The reply address follows the client's last datagram. -/
theorem source_of_lastLocal (h : Run (step zones) anyStep w₀ tr w) {l : Option PktInfo}
    (hl : lastLocal tr = some l) : w.raReply.source = l := by
  induction h generalizing l with
  | start => cases hl
  | @next tr s e h _ ih =>
    rw [raReply_step]
    unfold lastLocal at hl
    rw [List.findSome?_cons] at hl
    cases e with
    | recv l' d now outs =>
      cases hl
      exact ReplyAddr.source_setLocalAddr _ _
    | read i d => exact ih hl
    | disconnect i => exact ih hl
    | write i outs => exact ih hl

/-- **The source address of an answer.** In every run, an answer leaves from the local address that a client
datagram came to before it, such as the query with its ID, exactly when the client's last datagram did. -/
theorem source_eq_iff (h : Run (step zones) anyStep w₀ tr w)
    {tr' tr₀ : List (Entry DNSQureyWork Event (List Call))}
    {x y : Entry DNSQureyWork Event (List Call)} {now : ℕ} {q out : Bytes} {ra : ReplyAddr}
    {l : Option PktInfo} {outs : ℕ → SendOutcome} (htr : tr = tr' ++ x :: tr₀)
    (ho : Call.sendTo ra out ∈ x.out) (hy : y ∈ tr₀) (hq : y.event = .recv l q now outs) :
    ra.source = l ↔ lastLocal tr₀ = some l := by
  obtain ⟨hrun, -, hout⟩ := h.at_entry htr
  rw [hout] at ho
  obtain ⟨-, -, -, -, -, -, rfl, -⟩ := mem_sendTo_step.mp ho
  rcases hlast : lastLocal tr₀ with _ | l'
  · have hnone := List.findSome?_eq_none_iff.mp hlast y hy
    unfold localOf at hnone
    rw [hq] at hnone
    cases hnone
  · rw [source_of_lastLocal hrun hlast]
    exact (Option.some_inj).symm

/-- A local address for examples. -/
def local1 : PktInfo := ⟨IPv6Addr.ofBytes [0x20, 0x01, 0x0D, 0xB8, 0, 1], 2⟩

/-- Another one. -/
def local2 : PktInfo := ⟨IPv6Addr.ofBytes [0x20, 0x01, 0x0D, 0xB8, 0, 2], 2⟩

/-- The address of an IPv6 client. -/
def client6 : IPv6Addr := IPv6Addr.ofBytes [0x20, 0x01, 0x0D, 0xB8, 0, 3]

/-- Its work, with one connected zone. -/
def freshWork6 : DNSQureyWork := { freshWork 1 with raReply := { ssClient := .inet6 client6 5353 0 } }

/-- Three queries, the second to another address of the server than the first and the third; then the
answers to the first and the second. -/
def threeQueries : List Event :=
  [.recv (some local1) (query 5 [97] 1) 0 fun _ => .sent, .recv (some local2) (query 6 [98] 1) 1 fun _ => .sent,
    .recv (some local1) (query 7 [99] 1) 2 fun _ => .sent, .read 0 (emptyReply 5 [97] 1),
    .read 0 (emptyReply 6 [98] 1)]

/-- The first answer leaves from the address its query came to, the second does not. -/
theorem source_of_threeQueries : ∃ x₆ x₅ tr₀ ra₅ ra₆,
    (exec (step [{}]) threeQueries [] freshWork6).1 = x₆ :: x₅ :: tr₀ ∧
    Call.sendTo ra₅ (emptyReply 5 [97] 1) ∈ x₅.out ∧ ra₅.source = some local1 ∧
    Call.sendTo ra₆ (emptyReply 6 [98] 1) ∈ x₆.out ∧ ra₆.source ≠ some local2 := by
  have h := run_exec (step [{}]) freshWork6 threeQueries
  have ho₅ : Call.sendTo ⟨.inet6 client6 5353 0, true, local1⟩ (emptyReply 5 [97] 1) ∈
      (step [{}] (.read 0 (emptyReply 5 [97] 1)) (after (step [{}]) (threeQueries.take 3) freshWork6)).2 := by
    decide +kernel
  have ho₆ : Call.sendTo ⟨.inet6 client6 5353 0, true, local1⟩ (emptyReply 6 [98] 1) ∈
      (step [{}] (.read 0 (emptyReply 6 [98] 1)) (after (step [{}]) (threeQueries.take 4) freshWork6)).2 := by
    decide +kernel
  refine ⟨_, _, _, _, _, rfl, ho₅, ?_, ho₆, ?_⟩
  · refine (source_eq_iff h (show _ = [_] ++ _ from rfl) ho₅ (List.mem_cons_of_mem _ (List.mem_cons_of_mem _
      List.mem_cons_self)) rfl).mpr rfl
  · intro hs
    have hlast := (source_eq_iff h (show _ = [] ++ _ from rfl) ho₆ (List.mem_cons_of_mem _ (List.mem_cons_of_mem _
      List.mem_cons_self)) rfl).mp hs
    exact absurd hlast (by decide)

/-- **Answers leave from the address of their query**: an answer for an ID leaves from the local address
that the client's datagram with this ID came to. -/
def AnswersFromQueried (tr : List (Entry DNSQureyWork Event (List Call))) : Prop :=
  ∀ tr' x tr₀ i d ra out y l q now outs, tr = tr' ++ x :: tr₀ → x.event = .read i d →
    Call.sendTo ra out ∈ x.out → y ∈ tr₀ → y.event = .recv (some l) q now outs →
    queryID q = replyID d → ra.source = some l

/-- A client asks two questions at two addresses of the server. The answer to the first leaves from the
address of the second. -/
theorem answer_from_other_address : ¬ AnswersFromQueried (exec (step [{}])
    [.recv (some local1) (query 5 [97] 1) 0 fun _ => .sent,
      .recv (some local2) (query 6 [97] 1) 0 fun _ => .sent, .read 0 (emptyReply 5 [97] 1)] []
    freshWork6).1 := by
  intro h
  have hs := h [] _ _ 0 (emptyReply 5 [97] 1) ⟨.inet6 client6 5353 0, true, local2⟩
    (emptyReply 5 [97] 1) _ local1 (query 5 [97] 1) 0 (fun _ => .sent) rfl rfl (by decide +kernel)
    (List.mem_cons_of_mem _ List.mem_cons_self) rfl (by decide +kernel)
  exact absurd hs (by decide)

end DnsMultiZone.Work.ReplyAddress
