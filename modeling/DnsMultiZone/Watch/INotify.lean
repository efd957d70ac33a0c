import DnsMultiZone.Lib.BigEndian

/-! # `FileINotify::INotify`

The kernel queues an event for each change of a file in a watched directory. A read returns the queued
events that fit in the buffer as whole records, back to back (`kernelRead`); a record is a header of
16 bytes and the file's name, filled up with zero bytes. `INotify` walks the records. A read outside the
bytes returned gives no result (`none`).

* `hitLoop_encodes`: over whole records the loop stays inside and looks at every name.
* `inotify_iff`: exactly when every call succeeds and the queue is emptied. -/

namespace DnsMultiZone.Watch.INotify

open DnsMultiZone.Lib.BigEndian

/-! ### Events -/

/-- The byte order of the machine: how four bytes of memory spell an unsigned number. -/
structure Host where
  u32 : Bytes → ℕ
  put : ℕ → Bytes
  length_put : ∀ n, (put n).length = 4
  u32_put : ∀ n < 2 ^ 32, u32 (put n) = n

/-- What happened to a file: a name has no zero byte and at most 255 bytes. An event about the directory
itself has no name. -/
structure FileEvent where
  wd : UInt32
  mask : UInt32
  cookie : UInt32
  name : Bytes
  no_zero : 0 ∉ name
  length_name : name.length ≤ 255

/-- The field `len`: the name with at least one zero byte, up to a multiple of 16. -/
def FileEvent.len (e : FileEvent) : ℕ := if e.name = [] then 0 else (e.name.length + 1 + 15) / 16 * 16

/-- `sizeof(struct inotify_event)`. -/
def headerSize : ℕ := 16

/-- The record of an event. -/
def FileEvent.encode (host : Host) (e : FileEvent) : Bytes :=
  host.put e.wd.toNat ++ host.put e.mask.toNat ++ host.put e.cookie.toNat ++ host.put e.len ++
    e.name ++ List.replicate (e.len - e.name.length) 0

/-- The records of events, back to back. -/
def encodes (host : Host) (es : List FileEvent) : Bytes := es.flatMap (·.encode host)

/-- What `read` of an inotify descriptor returns. -/
inductive ReadResult
  | bytes (b : Bytes)
  | eagain
  | einval

/-- How many events of a queue fit in a buffer. -/
def fitting : ℕ → List FileEvent → ℕ
  | _, [] => 0
  | count, e :: es => if headerSize + e.len ≤ count then fitting (count - (headerSize + e.len)) es + 1 else 0

/-- `read` of an inotify descriptor with a buffer of `count` bytes: the result and what stays queued. -/
def kernelRead (host : Host) (count : ℕ) (queue : List FileEvent) : ReadResult × List FileEvent :=
  if queue = [] then (.eagain, queue)
  else if fitting count queue = 0 then (.einval, queue)
  else (.bytes (encodes host (queue.take (fitting count queue))), queue.drop (fitting count queue))

/-! ### The loop over the records -/

/-- `NOTIFY_NMAX_READ_BUFFER`: a header and `NOTIFY_NAME_MAX` bytes. -/
def nMaxReadBuffer : ℕ := headerSize + 255

/-- The names the loop passes over: empty ones, backups and dotfiles. -/
def Ignored (name : Bytes) : Prop :=
  name = [] ∨ name.getLast? = some 0x7E ∨ (name.head? = some 0x23 ∧ name.getLast? = some 0x23) ∨
    name.head? = some 0x2E

instance (name : Bytes) : Decidable (Ignored name) := by unfold Ignored; infer_instance

/-- The string at a place, without its zero byte; none if the zero byte is not there. -/
def stringAt (s : Bytes) : Option Bytes := if 0 ∈ s then some (s.takeWhile (· != 0)) else none

/-- The `for` loop of `INotify` over what is left of the bytes returned, with `hit`. -/
def hitLoop (host : Host) (ssWatchFile : List Bytes) (p : Bytes) (hit : Bool) : Option Bool :=
  if p.length < headerSize then some hit
  else if host.u32 ((p.drop 12).take 4) = 0 then hitLoop host ssWatchFile (p.drop headerSize) hit
  else
    match stringAt (p.drop headerSize) with
    | none => none
    | some name =>
      hitLoop host ssWatchFile (p.drop (headerSize + host.u32 ((p.drop 12).take 4)))
        (if Ignored name then hit else hit || decide (name ∈ ssWatchFile))
termination_by p.length
decreasing_by all_goals simp only [List.length_drop, headerSize] at *; omega

/-- What `INotify` returns, and whether it called `RefreshResolvConf`. -/
structure Outcome where
  ret : Bool
  refreshed : Bool
  deriving DecidableEq

/-- `FileINotify::INotify`, with what the read returns. -/
def inotify (host : Host) (ssWatchFile : List Bytes) : ReadResult → Option Outcome
  | .eagain => some ⟨true, false⟩
  | .einval => some ⟨false, false⟩
  | .bytes b => (hitLoop host ssWatchFile b false).map fun hit => ⟨true, hit⟩

/-- A call on a queue. -/
def call (host : Host) (ssWatchFile : List Bytes) (queue : List FileEvent) : Option Outcome :=
  inotify host ssWatchFile (kernelRead host nMaxReadBuffer queue).1

/-- The queue after calls. -/
def queueAfter (host : Host) : ℕ → List FileEvent → List FileEvent
  | 0, queue => queue
  | k + 1, queue => queueAfter host k (kernelRead host nMaxReadBuffer queue).2

variable {host : Host} {ssWatchFile : List Bytes} {e : FileEvent} {es : List FileEvent}

/-! ### Records -/

theorem FileEvent.le_len (e : FileEvent) (h : e.name ≠ []) : e.name.length + 1 ≤ e.len := by
  rw [len, if_neg h]
  omega

theorem FileEvent.len_lt (e : FileEvent) : e.len < 2 ^ 32 := by
  have := e.length_name
  unfold len
  split_ifs <;> omega

theorem FileEvent.length_encode (host : Host) (e : FileEvent) :
    (e.encode host).length = headerSize + e.len := by
  have h : e.name.length ≤ e.len := by
    by_cases h : e.name = []
    · simp [h]
    · have := e.le_len h
      omega
  simp only [encode, List.length_append, host.length_put, List.length_replicate, headerSize]
  omega

theorem u32_encode (rest : Bytes) : host.u32 (((e.encode host ++ rest).drop 12).take 4) = e.len := by
  have h12 : (host.put e.wd.toNat ++ host.put e.mask.toNat ++ host.put e.cookie.toNat).length = 12 := by
    simp [host.length_put]
  have hdrop : (e.encode host ++ rest).drop 12 =
      host.put e.len ++ (e.name ++ List.replicate (e.len - e.name.length) 0 ++ rest) := by
    have he : e.encode host ++ rest =
        (host.put e.wd.toNat ++ host.put e.mask.toNat ++ host.put e.cookie.toNat) ++
          (host.put e.len ++ (e.name ++ List.replicate (e.len - e.name.length) 0 ++ rest)) := by
      simp [FileEvent.encode, List.append_assoc]
    rw [he, List.drop_left' h12]
  rw [hdrop, List.take_left' (host.length_put _), host.u32_put _ e.len_lt]

theorem stringAt_encode (rest : Bytes) (h : e.name ≠ []) :
    stringAt ((e.encode host ++ rest).drop headerSize) = some e.name := by
  have h16 : (host.put e.wd.toNat ++ host.put e.mask.toNat ++ host.put e.cookie.toNat ++
      host.put e.len).length = headerSize := by
    simp [host.length_put, headerSize]
  obtain ⟨k, hk⟩ : ∃ k, e.len - e.name.length = k + 1 := ⟨e.len - e.name.length - 1, by
    have := e.le_len h
    omega⟩
  have hdrop : (e.encode host ++ rest).drop headerSize =
      e.name ++ 0 :: (List.replicate k 0 ++ rest) := by
    rw [FileEvent.encode, hk, List.append_assoc, List.append_assoc, List.drop_left' h16]
    simp [List.replicate_succ]
  have hname : ∀ c ∈ e.name, (c != 0) = true := fun c hc => bne_iff_ne.mpr fun h0 =>
    e.no_zero (h0 ▸ hc)
  rw [hdrop, stringAt, if_pos (by simp), List.takeWhile_append_of_pos hname]
  simp

/-- An event that makes the loop note a hit. -/
def Hits (ssWatchFile : List Bytes) (e : FileEvent) : Prop := ¬ Ignored e.name ∧ e.name ∈ ssWatchFile

instance (e : FileEvent) : Decidable (Hits ssWatchFile e) := by unfold Hits; infer_instance

theorem hitLoop_encode (rest : Bytes) (hit : Bool) :
    hitLoop host ssWatchFile (e.encode host ++ rest) hit =
      hitLoop host ssWatchFile rest (hit || decide (Hits ssWatchFile e)) := by
  have hlen : ¬ (e.encode host ++ rest).length < headerSize := by
    rw [List.length_append, e.length_encode]
    omega
  rw [hitLoop, if_neg hlen, u32_encode]
  by_cases hn : e.name = []
  · have h0 : e.len = 0 := if_pos hn
    have hlen0 : (e.encode host).length = headerSize := by rw [e.length_encode, h0]; rfl
    have hno : ¬ Hits ssWatchFile e := fun h => h.1 (Or.inl hn)
    rw [if_pos h0, List.drop_left' hlen0]
    simp [hno]
  · have h0 : e.len ≠ 0 := by
      have := e.le_len hn
      omega
    rw [if_neg h0, stringAt_encode rest hn]
    simp only [List.drop_left' (e.length_encode host)]
    congr 1
    by_cases hi : Ignored e.name
    · simp [hi, Hits]
    · simp [hi, Hits]

/-- **Whole records**: the loop ends inside them, with a hit if one of them is. -/
theorem hitLoop_encodes (es : List FileEvent) (hit : Bool) :
    hitLoop host ssWatchFile (encodes host es) hit =
      some (hit || es.any fun e => decide (Hits ssWatchFile e)) := by
  induction es generalizing hit with
  | nil => rw [hitLoop, if_pos (by simp [encodes, headerSize])]; simp
  | cons e es ih =>
    rw [encodes, List.flatMap_cons, hitLoop_encode]
    exact (ih _).trans (by simp [Bool.or_assoc])

/-! ### The queue -/

/-- The buffer takes an event exactly when its name has at most 239 bytes. -/
theorem fits_iff (e : FileEvent) : headerSize + e.len ≤ nMaxReadBuffer ↔ e.name.length ≤ 239 := by
  have := e.length_name
  unfold FileEvent.len headerSize nMaxReadBuffer headerSize
  split_ifs with h
  · simp [h]
  · omega

theorem fitting_pos_iff (e : FileEvent) (es : List FileEvent) :
    0 < fitting nMaxReadBuffer (e :: es) ↔ e.name.length ≤ 239 := by
  rw [← fits_iff, fitting]
  split_ifs with h <;> simp [h]

/-- **A call**: it fails when the first event does not fit, and otherwise stays inside the bytes returned. -/
theorem call_cases (host : Host) (ssWatchFile : List Bytes) (queue : List FileEvent) :
    (queue = [] ∧ call host ssWatchFile queue = some ⟨true, false⟩) ∨
    (∃ e es, queue = e :: es ∧ 239 < e.name.length ∧ call host ssWatchFile queue = some ⟨false, false⟩) ∨
    ∃ es rest, es ≠ [] ∧ queue = es ++ rest ∧ (kernelRead host nMaxReadBuffer queue).2 = rest ∧
      call host ssWatchFile queue =
        some ⟨true, es.any fun e => decide (Hits ssWatchFile e)⟩ := by
  rcases queue with _ | ⟨e, es⟩
  · exact Or.inl ⟨rfl, rfl⟩
  · refine Or.inr ?_
    have hpos := fitting_pos_iff e es
    by_cases h : e.name.length ≤ 239
    · have hne : fitting nMaxReadBuffer (e :: es) ≠ 0 := by have := hpos.mpr h; omega
      refine Or.inr ⟨(e :: es).take (fitting nMaxReadBuffer (e :: es)),
        (e :: es).drop (fitting nMaxReadBuffer (e :: es)), by simpa using hne,
        (List.take_append_drop _ _).symm, ?_, ?_⟩
      · rw [kernelRead, if_neg (by simp), if_neg hne]
      · rw [call, kernelRead, if_neg (by simp), if_neg hne]
        simp only [inotify, hitLoop_encodes, Bool.false_or, Option.map_some]
    · have h0 : fitting nMaxReadBuffer (e :: es) = 0 := by
        by_contra hne
        exact h (hpos.mp (Nat.pos_of_ne_zero hne))
      refine Or.inl ⟨e, es, rfl, by omega, ?_⟩
      rw [call, kernelRead, if_neg (by simp), if_pos h0]
      rfl

theorem le_of_mem_fitting : ∀ {count : ℕ} {queue : List FileEvent},
    ∀ e ∈ queue.take (fitting count queue), headerSize + e.len ≤ count
  | _, [], e, he => by simp at he
  | count, e' :: es, e, he => by
    rw [fitting] at he
    split_ifs at he with h
    · rw [List.take_succ_cons] at he
      rcases List.mem_cons.mp he with rfl | he
      · exact h
      · have := le_of_mem_fitting e he
        omega
    · simp at he

/-- Every call succeeds and stays inside the bytes returned, and the queue is emptied. -/
def Served (host : Host) (ssWatchFile : List Bytes) (queue : List FileEvent) : Prop :=
  (∀ k, ∃ o, call host ssWatchFile (queueAfter host k queue) = some o ∧ o.ret = true) ∧
    ∃ k, queueAfter host k queue = []

theorem short_of_taken {queue rest : List FileEvent} (hq : queue = es ++ rest)
    (hr : (kernelRead host nMaxReadBuffer queue).2 = rest) (hne : es ≠ []) :
    ∀ e ∈ es, e.name.length ≤ 239 := by
  subst hq
  intro e he
  rw [← fits_iff]
  unfold kernelRead at hr
  split_ifs at hr with h h0
  · exact absurd (List.append_eq_nil_iff.mp h).1 hne
  · exact absurd (List.append_left_eq_self.mp hr) hne
  · have htake : (es ++ rest).take (fitting nMaxReadBuffer (es ++ rest)) = es := by
      have happ := List.take_append_drop (fitting nMaxReadBuffer (es ++ rest)) (es ++ rest)
      exact List.append_cancel_right (happ.trans (congrArg (es ++ ·) hr.symm))
    exact le_of_mem_fitting e (htake ▸ he)

theorem length_rest_lt {queue es rest : List FileEvent} (hq : queue = es ++ rest) (hne : es ≠ []) :
    rest.length < queue.length := by
  have := List.length_pos_iff.mpr hne
  rw [hq, List.length_append]
  omega

theorem short_of_served : ∀ {queue : List FileEvent}, Served host ssWatchFile queue →
    ∀ e ∈ queue, e.name.length ≤ 239 := by
  intro queue
  induction hn : queue.length using Nat.strongRecOn generalizing queue with
  | ind n ih =>
    rintro ⟨hall, k, hk⟩
    rcases call_cases host ssWatchFile queue with ⟨hq, -⟩ | ⟨e, es, -, -, hc⟩ | ⟨es, rest, hne, hq, hr, -⟩
    · simp [hq]
    · obtain ⟨o, ho, ht⟩ := hall 0
      rw [queueAfter, hc] at ho
      obtain rfl := Option.some.inj ho
      cases ht
    · intro e he
      rw [hq] at he
      rcases List.mem_append.mp he with he | he
      · exact short_of_taken hq hr hne e he
      · have hrest : rest.length < n := hn ▸ length_rest_lt hq hne
        -- the queue after the first call is served by the calls after it
        refine ih rest.length hrest rfl ⟨fun k => ?_, ?_⟩ e he
        · have hnext := hall (k + 1)
          rw [queueAfter, hr] at hnext
          exact hnext
        · rcases k with _ | k
          · rw [queueAfter] at hk
            rw [hk] at hq
            exact absurd (List.append_eq_nil_iff.mp hq.symm).1 hne
          · rw [queueAfter, hr] at hk
            exact ⟨k, hk⟩

theorem queueAfter_nil (k : ℕ) : queueAfter host k [] = [] := by
  induction k with
  | zero => rfl
  | succ k ih => exact ih

theorem served_of_short : ∀ {queue : List FileEvent}, (∀ e ∈ queue, e.name.length ≤ 239) →
    Served host ssWatchFile queue := by
  intro queue
  induction hn : queue.length using Nat.strongRecOn generalizing queue with
  | ind n ih =>
    intro hshort
    rcases call_cases host ssWatchFile queue with
      ⟨rfl, hc⟩ | ⟨e, es, hq, hlong, -⟩ | ⟨es, rest, hne, hq, hr, hc⟩
    · exact ⟨fun k => ⟨_, by rw [queueAfter_nil]; exact hc, rfl⟩, 0, rfl⟩
    · have := hshort e (by simp [hq])
      omega
    · have hrest : rest.length < n := hn ▸ length_rest_lt hq hne
      obtain ⟨hall, k, hk⟩ := ih rest.length hrest rfl
        fun e he => hshort e (hq ▸ List.mem_append_right _ he)
      refine ⟨fun k => ?_, k + 1, by rw [queueAfter, hr]; exact hk⟩
      rcases k with _ | k
      · exact ⟨_, hc, rfl⟩
      · rw [queueAfter, hr]
        exact hall k

/-- **Every call succeeds and the queue is emptied exactly when** no name is longer than 239 bytes. -/
theorem inotify_iff (host : Host) (ssWatchFile : List Bytes) (queue : List FileEvent) :
    Served host ssWatchFile queue ↔ ∀ e ∈ queue, e.name.length ≤ 239 :=
  ⟨short_of_served, served_of_short⟩

/-! ### A name of 240 bytes -/

/-- Least significant byte first. -/
def littleEndian : Host where
  u32 l := beNat l.reverse
  put n := (be32 n).reverse
  length_put n := by simp
  u32_put n h := by rw [List.reverse_reverse, beNat_be32 h]

/-- A file that was closed after writing (`IN_CLOSE_WRITE`), with a name of `n` letters `a`. -/
def written (n : ℕ) (h : n ≤ 255) : FileEvent :=
  ⟨1, 8, 0, List.replicate n 0x61, fun h0 => absurd (List.eq_of_mem_replicate h0) (by decide),
    by rw [List.length_replicate]; exact h⟩

/-- The record of a name of 240 bytes has 272, one more than the buffer. -/
theorem long_name_stops : ¬ ∀ (host : Host) (ssWatchFile : List Bytes) (queue : List FileEvent),
    Served host ssWatchFile queue := by
  intro h
  obtain ⟨hall, -⟩ := h littleEndian [] [written 240 (by decide)]
  obtain ⟨o, ho, ht⟩ := hall 0
  have hc : call littleEndian [] [written 240 (by decide)] = some ⟨false, false⟩ := by decide +kernel
  obtain rfl := Option.some.inj (hc.symm.trans ho)
  cases ht

end DnsMultiZone.Watch.INotify
