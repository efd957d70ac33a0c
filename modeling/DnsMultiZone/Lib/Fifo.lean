import Mathlib.Data.List.Basic

/-! # A queue before a sender

Datagrams are submitted at the end of a queue, and its head is settled: the receiver takes it, or it is
dropped for good. `Reached submitted settled waiting` says where such moves can lead, with all that was
submitted, all that was settled, each with whether it was taken, and what waits.

* `Reached.order`: what was settled and what waits, one after the other, is what was submitted.
* `kept_settled`: what was taken and what waits is what was submitted without what was dropped. -/

namespace DnsMultiZone.Lib.Fifo

variable {α : Type}

inductive Reached : List α → List (α × Bool) → List α → Prop
  | start : Reached [] [] []
  | submit {submitted waiting : List α} {settled : List (α × Bool)} (d : α)
      (h : Reached submitted settled waiting) : Reached (submitted ++ [d]) settled (waiting ++ [d])
  | settle {submitted waiting : List α} {settled : List (α × Bool)} {d : α} (taken : Bool)
      (h : Reached submitted settled (d :: waiting)) :
      Reached submitted (settled ++ [(d, taken)]) waiting

variable {submitted waiting : List α} {settled : List (α × Bool)}

/-- The datagrams that are marked. -/
def kept (marks : List (α × Bool)) : List α := (marks.filter (·.2)).map Prod.fst

@[simp] theorem kept_append (l m : List (α × Bool)) : kept (l ++ m) = kept l ++ kept m := by
  rw [kept, List.filter_append, List.map_append]
  rfl

/-- What waits, marked. -/
def marked (waiting : List α) : List (α × Bool) := waiting.map (·, true)

theorem map_fst_marked (waiting : List α) : (marked waiting).map Prod.fst = waiting := by
  induction waiting with
  | nil => rfl
  | cons d waiting ih => exact congrArg (d :: ·) ih

theorem kept_marked (waiting : List α) : kept (marked waiting) = waiting := by
  induction waiting with
  | nil => rfl
  | cons d waiting ih => exact congrArg (d :: ·) ih

theorem Reached.settleAll (ends : List (α × Bool))
    (h : Reached submitted settled (ends.map Prod.fst ++ waiting)) :
    Reached submitted (settled ++ ends) waiting := by
  induction ends generalizing settled with
  | nil => simpa using h
  | cons x ends ih =>
    have hnext := ih (h.settle x.2)
    rwa [List.append_assoc] at hnext

/-- **Nothing is lost, doubled or reordered.** -/
theorem Reached.order (h : Reached submitted settled waiting) :
    submitted = (settled ++ marked waiting).map Prod.fst := by
  rw [List.map_append, map_fst_marked]
  induction h with
  | start => rfl
  | submit d _ ih => rw [ih, List.append_assoc]
  | settle taken _ ih => rw [ih, List.map_append, List.append_assoc]; rfl

/-- What was taken, and then what waits, is what was submitted without what was dropped. -/
theorem kept_settled (settled : List (α × Bool)) (waiting : List α) :
    kept settled ++ waiting = kept (settled ++ marked waiting) := by
  rw [kept_append, kept_marked]

end DnsMultiZone.Lib.Fifo
