import Mathlib.Data.List.Basic
import Mathlib.Tactic.Linarith

/-! # Halving an interval towards a rank

A search that halves `[b, e]` and keeps both ends inside looks at the middle, and moves one end to it.
Which way it goes depends only on the side of a fixed place `p` on which the middle lies: the middle
`m` sends it right if `m < p` and left otherwise. `visits` lists the places it looks at; it stops early
when the sum of its ends passes a limit, and `finishes` says that it does not.

* `mem_visits`: the places looked at lie in the interval.
* `pred_mem_visits`: the place before `p` is looked at, if it lies in the interval.
* `finishes_of_le`: an interval whose ends are at most half the limit is halved to the end.
* `lt_countP_iff`: in a list sorted for a downward closed predicate, the entries that satisfy it are
  those at the places before their number, so that number is the rank. -/

namespace DnsMultiZone.Lib.Halving

/-- The places halving `[b, e]` towards rank `p` looks at, as long as two ends sum to at most `lim`. -/
def visits (lim p b e : ℕ) : List ℕ :=
  if b + e > lim then []
  else if (b + e) / 2 < p then
    if b = (b + e) / 2 then [(b + e) / 2, e]
    else if e = (b + e) / 2 then [(b + e) / 2]
    else (b + e) / 2 :: visits lim p ((b + e) / 2) e
  else
    if e = (b + e) / 2 then [(b + e) / 2, b]
    else if b = (b + e) / 2 then [(b + e) / 2]
    else (b + e) / 2 :: visits lim p b ((b + e) / 2)
termination_by (e - b) + (b - e)
decreasing_by all_goals omega

/-- No two ends sum to more than `lim`. -/
def finishes (lim p b e : ℕ) : Bool :=
  if b + e > lim then false
  else if (b + e) / 2 < p then
    if b = (b + e) / 2 ∨ e = (b + e) / 2 then true else finishes lim p ((b + e) / 2) e
  else
    if e = (b + e) / 2 ∨ b = (b + e) / 2 then true else finishes lim p b ((b + e) / 2)
termination_by (e - b) + (b - e)
decreasing_by all_goals omega

theorem mem_visits {lim p b e i : ℕ} (hbe : b ≤ e) (hi : i ∈ visits lim p b e) : b ≤ i ∧ i ≤ e := by
  fun_induction visits lim p b e with
  | case1 => simp at hi
  | case2 b e _ _ hb => simp only [List.mem_cons, List.not_mem_nil, or_false] at hi; omega
  | case3 b e _ _ _ he => simp only [List.mem_cons, List.not_mem_nil, or_false] at hi; omega
  | case4 b e _ _ _ _ ih =>
    rcases List.mem_cons.mp hi with rfl | hi
    · omega
    · have := ih (by omega) hi; omega
  | case5 b e _ _ he => simp only [List.mem_cons, List.not_mem_nil, or_false] at hi; omega
  | case6 b e _ _ _ hb => simp only [List.mem_cons, List.not_mem_nil, or_false] at hi; omega
  | case7 b e _ _ _ _ ih =>
    rcases List.mem_cons.mp hi with rfl | hi
    · omega
    · have := ih (by omega) hi; omega

theorem pred_mem_visits {lim p b e : ℕ} (hb : b < p) (he : p ≤ e + 1) (hl : 2 * e ≤ lim) :
    p - 1 ∈ visits lim p b e := by
  fun_induction visits lim p b e with
  | case1 => omega
  | case2 b e _ _ hm => simp only [List.mem_cons, List.not_mem_nil, or_false]; omega
  | case3 b e _ _ _ hm => omega
  | case4 b e _ hm _ _ ih => exact List.mem_cons_of_mem _ (ih hm he hl)
  | case5 b e _ _ hm => simp only [List.mem_cons, List.not_mem_nil, or_false]; omega
  | case6 b e _ _ _ hm => omega
  | case7 b e _ _ _ _ ih => exact List.mem_cons_of_mem _ (ih hb (by omega) (by omega))

theorem finishes_of_le {lim p b e : ℕ} (hbe : b ≤ e) (he : 2 * e ≤ lim) : finishes lim p b e := by
  fun_induction finishes lim p b e with
  | case1 b e h => omega
  | case2 => rfl
  | case3 b e _ _ _ ih => exact ih (by omega) he
  | case4 => rfl
  | case5 b e _ _ _ ih => exact ih (by omega) (by omega)

/-- The satisfying entries of a list sorted for a downward closed predicate come first. -/
theorem lt_countP_iff {α : Type} {P : α → Bool} : ∀ {l : List α},
    l.Pairwise (fun a b => P b → P a) → ∀ i (h : i < l.length), i < l.countP P ↔ P l[i]
  | [], _, i, h => by simp at h
  | a :: l, hl, i, h => by
    rw [List.pairwise_cons] at hl
    by_cases ha : P a
    · rcases i with _ | i
      · simp [ha]
      · have ih := lt_countP_iff hl.2 i (by simpa using h)
        rw [List.countP_cons_of_pos ha, List.getElem_cons_succ, ← ih]
        omega
    · have h0 : ∀ b ∈ l, ¬ P b := fun b hb hP => ha (hl.1 b hb hP)
      have hc : l.countP P = 0 := List.countP_eq_zero.mpr h0
      simp only [List.countP_cons, ha, hc]
      rcases i with _ | i
      · simpa using ha
      · simpa using h0 _ (List.getElem_mem (by simpa using h))

end DnsMultiZone.Lib.Halving
