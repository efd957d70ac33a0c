import DnsMultiZone.Lib.Runs
import Mathlib.Algebra.BigOperators.Group.Finset.Piecewise
import Mathlib.Algebra.Order.BigOperators.Group.Finset
import Mathlib.Algebra.Order.Field.Power
import Mathlib.Data.Rat.Floor

/-! # A family of machines that share nothing

Machines of one kind come and go, each under an index that is not used again. An action sets one up,
hands it an event, or drops it. `Reached` says which family, and which output of whom, a list of actions
leads to, the newest action first; nothing in it lets a machine see another.

* `Reached.alone`: a machine is where its own events take it from where it was set up.
* `Reached.tagged_eq`: and what it has put out is what it puts out alone, also after it is dropped.
* `Reached.sum_le`: what bounds the output of one machine by its input bounds that of the family. -/

namespace DnsMultiZone.Lib.Family

open DnsMultiZone.Lib.Runs

variable {ι σ ε ω : Type}

/-! ### One machine -/

section Machine
variable (step : ε → σ → σ × List ω)

/-- What a machine puts out for a list of events. -/
def output : List ε → σ → List ω
  | [], _ => []
  | e :: es, s => (step e s).2 ++ output es (step e s).1

theorem output_append (es₁ es₂ : List ε) (s : σ) :
    output step (es₁ ++ es₂) s = output step es₁ s ++ output step es₂ (after step es₁ s) := by
  induction es₁ generalizing s with
  | nil => rfl
  | cons e es₁ ih =>
    show (step e s).2 ++ output step (es₁ ++ es₂) _ = _
    rw [ih, ← List.append_assoc]
    rfl

theorem output_snoc (es : List ε) (e : ε) (s : σ) :
    output step (es ++ [e]) s = output step es s ++ (step e (after step es s)).2 := by
  rw [output_append]
  exact congrArg (output step es s ++ ·) (List.append_nil _)

end Machine

/-! ### Actions -/

/-- An action on the machine at an index. -/
inductive Action (ι σ ε : Type)
  | spawn (i : ι) (s : σ)
  | deliver (i : ι) (e : ε)
  | drop (i : ι)

/-- All events that were handed on, in order, each with where to. -/
def deliveries : List (Action ι σ ε) → List (ι × ε)
  | [] => []
  | .spawn _ _ :: as => deliveries as
  | .deliver i e :: as => deliveries as ++ [(i, e)]
  | .drop _ :: as => deliveries as

theorem deliveries_append (as bs : List (Action ι σ ε)) :
    deliveries (as ++ bs) = deliveries bs ++ deliveries as := by
  induction as with
  | nil => exact (List.append_nil _).symm
  | cons a as ih =>
    cases a with
    | spawn i s => exact ih
    | drop i => exact ih
    | deliver i e => exact (congrArg (· ++ [(i, e)]) ih).trans (List.append_assoc _ _ _)

theorem deliveries_dropAll (is : List ι) : deliveries (is.map (Action.drop (σ := σ) (ε := ε))) = [] := by
  induction is with
  | nil => rfl
  | cons i is ih => exact ih

variable [DecidableEq ι]

/-- How the machine at `i` was set up. -/
def origin (i : ι) : List (Action ι σ ε) → Option σ
  | [] => none
  | .spawn j s :: as => if j = i then some s else origin i as
  | .deliver _ _ :: as => origin i as
  | .drop _ :: as => origin i as

/-- What is of the machine at `i` in a list that says whose each item is. -/
def tagged {α : Type} (i : ι) (l : List (ι × α)) : List α := (l.filter (·.1 = i)).map Prod.snd

/-- The events handed to the machine at `i`, in order. -/
def received (i : ι) (as : List (Action ι σ ε)) : List ε := tagged i (deliveries as)

section Tagged
variable {α : Type} {i j : ι}

theorem tagged_append (i : ι) (l l' : List (ι × α)) : tagged i (l ++ l') = tagged i l ++ tagged i l' := by
  unfold tagged
  rw [List.filter_append, List.map_append]

theorem tagged_cons_self (i : ι) (x : α) (l : List (ι × α)) : tagged i ((i, x) :: l) = x :: tagged i l := by
  unfold tagged
  rw [List.filter_cons_of_pos (by simp), List.map_cons]

theorem tagged_cons_ne (h : j ≠ i) (x : α) (l : List (ι × α)) : tagged i ((j, x) :: l) = tagged i l := by
  unfold tagged
  rw [List.filter_cons_of_neg (by simpa using h)]

theorem tagged_map_self (i : ι) (l : List α) : tagged i (l.map fun x => (i, x)) = l := by
  induction l with
  | nil => rfl
  | cons x l ih => rw [List.map_cons, tagged_cons_self, ih]

theorem tagged_map_ne (h : j ≠ i) (l : List α) : tagged i (l.map fun x => (j, x)) = [] := by
  induction l with
  | nil => rfl
  | cons x l ih => rw [List.map_cons, tagged_cons_ne h, ih]

theorem sum_tagged (weight : α → ℕ) {is : Finset ι} {l : List (ι × α)} (h : ∀ x ∈ l, x.1 ∈ is) :
    ∑ i ∈ is, ((tagged i l).map weight).sum = (l.map fun x => weight x.2).sum := by
  induction l with
  | nil => exact Finset.sum_const_zero
  | cons x l ih =>
    obtain ⟨hx, hl⟩ := List.forall_mem_cons.mp h
    have hcons : ∀ i, ((tagged i (x :: l)).map weight).sum =
        (if x.1 = i then weight x.2 else 0) + ((tagged i l).map weight).sum := by
      intro i
      split_ifs with hi
      · subst hi
        rw [tagged_cons_self, List.map_cons, List.sum_cons]
      · rw [tagged_cons_ne hi, Nat.zero_add]
    rw [Finset.sum_congr rfl fun i _ => hcons i, Finset.sum_add_distrib, ih hl,
      Finset.sum_ite_eq, if_pos hx, List.map_cons, List.sum_cons]

end Tagged

section Received
variable {i j : ι}

theorem received_deliver_self (i : ι) (e : ε) (as : List (Action ι σ ε)) :
    received i (.deliver i e :: as) = received i as ++ [e] :=
  (tagged_append i _ _).trans (congrArg (received i as ++ ·) (tagged_cons_self i e []))

theorem received_deliver_ne (h : j ≠ i) (e : ε) (as : List (Action ι σ ε)) :
    received i (.deliver j e :: as) = received i as :=
  (tagged_append i _ _).trans ((congrArg (received i as ++ ·) (tagged_cons_ne h e [])).trans
    (List.append_nil _))

end Received

/-! ### Histories -/

/-- **Where a list of actions leads**: the machines that are there, and what was put out, with whose it
is. No index is used twice, and an event is handed to a machine that is there. -/
inductive Reached (step : ε → σ → σ × List ω) :
    List (Action ι σ ε) → (ι → Option σ) → List (ι × ω) → Prop
  | start : Reached step [] (fun _ => none) []
  | spawn {as : List (Action ι σ ε)} {f : ι → Option σ} {out : List (ι × ω)} {i : ι} (s : σ)
      (h : Reached step as f out) (hi : origin i as = none) :
      Reached step (.spawn i s :: as) (Function.update f i (some s)) out
  | deliver {as : List (Action ι σ ε)} {f : ι → Option σ} {out : List (ι × ω)} {i : ι} {s : σ} (e : ε)
      (h : Reached step as f out) (hi : f i = some s) :
      Reached step (.deliver i e :: as) (Function.update f i (some (step e s).1))
        (out ++ (step e s).2.map fun o => (i, o))
  | drop {as : List (Action ι σ ε)} {f : ι → Option σ} {out : List (ι × ω)} (i : ι)
      (h : Reached step as f out) : Reached step (.drop i :: as) (Function.update f i none) out

section Reached
variable {step : ε → σ → σ × List ω} {as : List (Action ι σ ε)} {f : ι → Option σ}
  {out : List (ι × ω)} {i : ι} {s : σ}

theorem Reached.origin_of_some (h : Reached step as f out) (hi : f i = some s) :
    ∃ s₀, origin i as = some s₀ := by
  induction h generalizing s with
  | start => cases hi
  | @spawn as f out j s' h hj ih =>
    unfold origin
    split_ifs with hji
    · exact ⟨s', rfl⟩
    · rw [Function.update_of_ne (Ne.symm hji)] at hi
      exact ih hi
  | @deliver as f out j s' e h hj ih =>
    by_cases hji : j = i
    · subst hji
      exact ih hj
    · rw [Function.update_of_ne (Ne.symm hji)] at hi
      exact ih hi
  | @drop as f out j h ih =>
    by_cases hji : j = i
    · subst hji
      rw [Function.update_self] at hi
      cases hi
    · rw [Function.update_of_ne (Ne.symm hji)] at hi
      exact ih hi

theorem Reached.received_of_none (h : Reached step as f out) (hi : origin i as = none) :
    received i as = [] := by
  induction h with
  | start => rfl
  | @spawn as f out j s' h hj ih =>
    unfold origin at hi
    split_ifs at hi with hji
    exact ih hi
  | @deliver as f out j s' e h hj ih =>
    have hji : j ≠ i := by
      rintro rfl
      obtain ⟨s₀, hs₀⟩ := h.origin_of_some hj
      have hi : origin j as = none := hi
      rw [hi] at hs₀
      cases hs₀
    exact (received_deliver_ne hji e as).trans (ih hi)
  | drop j h ih => exact ih hi

/-- **A machine is where its own events take it.** -/
theorem Reached.alone (h : Reached step as f out) (hi : f i = some s) :
    ∃ s₀, origin i as = some s₀ ∧ s = after step (received i as) s₀ := by
  induction h generalizing s with
  | start => cases hi
  | @spawn as f out j s' h hj ih =>
    by_cases hji : j = i
    · subst hji
      rw [Function.update_self] at hi
      obtain rfl := Option.some.inj hi
      refine ⟨s', if_pos rfl, ?_⟩
      show s' = after step (received j as) s'
      rw [h.received_of_none hj]
      rfl
    · rw [Function.update_of_ne (Ne.symm hji)] at hi
      obtain ⟨s₀, hs₀, hs⟩ := ih hi
      exact ⟨s₀, (if_neg hji).trans hs₀, hs⟩
  | @deliver as f out j s' e h hj ih =>
    by_cases hji : j = i
    · subst hji
      rw [Function.update_self] at hi
      obtain rfl := Option.some.inj hi
      obtain ⟨s₀, hs₀, hs⟩ := ih hj
      refine ⟨s₀, hs₀, ?_⟩
      rw [received_deliver_self, after_append, ← hs]
      rfl
    · rw [Function.update_of_ne (Ne.symm hji)] at hi
      obtain ⟨s₀, hs₀, hs⟩ := ih hi
      refine ⟨s₀, hs₀, ?_⟩
      rw [received_deliver_ne hji]
      exact hs
  | @drop as f out j h ih =>
    by_cases hji : j = i
    · subst hji
      rw [Function.update_self] at hi
      cases hi
    · rw [Function.update_of_ne (Ne.symm hji)] at hi
      exact ih hi

/-- **What a machine has put out is what it puts out alone.** -/
theorem Reached.tagged_eq (h : Reached step as f out) (i : ι) :
    tagged i out = (origin i as).elim [] (output step (received i as)) := by
  induction h with
  | start => rfl
  | @spawn as f out j s' h hj ih =>
    rw [ih]
    by_cases hji : j = i
    · subst hji
      have horigin : origin j (.spawn j s' :: as) = some s' := if_pos rfl
      have hreceived : received j (.spawn j s' :: as) = [] := h.received_of_none hj
      rw [hj, horigin, hreceived]
      rfl
    · have horigin : origin i (.spawn j s' :: as) = origin i as := if_neg hji
      rw [horigin]
      rfl
  | @deliver as f out j s' e h hj ih =>
    rw [tagged_append, ih]
    by_cases hji : j = i
    · subst hji
      obtain ⟨s₀, hs₀, rfl⟩ := h.alone hj
      have horigin : origin j (.deliver j e :: as) = some s₀ := hs₀
      rw [horigin, received_deliver_self, hs₀, tagged_map_self]
      exact (output_snoc step _ e s₀).symm
    · have horigin : origin i (.deliver j e :: as) = origin i as := rfl
      rw [horigin, received_deliver_ne hji, tagged_map_ne hji, List.append_nil]
  | drop j h ih => exact ih

theorem Reached.dropAll (h : Reached step as f out) (is : List ι) :
    Reached step (is.map Action.drop ++ as) (fun i => if i ∈ is then none else f i) out := by
  induction is with
  | nil => simpa using h
  | cons j is ih =>
    have hnext := ih.drop j
    have hfun : Function.update (fun i => if i ∈ is then none else f i) j none =
        fun i => if i ∈ j :: is then none else f i := by
      funext i
      by_cases hij : i = j
      · subst hij
        simp
      · simp [hij]
    rw [hfun] at hnext
    exact hnext

theorem origin_dropAll (i : ι) (is : List ι) (as : List (Action ι σ ε)) :
    origin i (is.map Action.drop ++ as) = origin i as := by
  induction is with
  | nil => rfl
  | cons j is ih => exact ih

/-! ### Bounds -/

/-- The output of one machine, with what it still owes, is paid for by its input. -/
theorem output_le {P : σ → Prop} {debt : σ → ℕ} {weight : ω → ℕ} {cost : ε → ℕ}
    (hs : ∀ e s, P s → P (step e s).1 ∧
      ((step e s).2.map weight).sum + debt (step e s).1 ≤ debt s + cost e) (es : List ε) {s : σ}
    (h : P s) : ((output step es s).map weight).sum + debt (after step es s) ≤
      debt s + (es.map cost).sum := by
  induction es generalizing s with
  | nil => exact (Nat.zero_add _).le
  | cons e es ih =>
    obtain ⟨hP, hone⟩ := hs e s h
    have hrest := ih hP
    show (((step e s).2 ++ output step es (step e s).1).map weight).sum +
      debt (after step es (step e s).1) ≤ debt s + (cost e + (es.map cost).sum)
    rw [List.map_append, List.sum_append]
    omega

/-- **So is the output of a family** whose machines owe nothing when they are set up. -/
theorem Reached.sum_le (P : σ → Prop) (debt : σ → ℕ) (weight : ω → ℕ) (cost : ε → ℕ)
    (hs : ∀ e s, P s → P (step e s).1 ∧
      ((step e s).2.map weight).sum + debt (step e s).1 ≤ debt s + cost e)
    (h0 : ∀ i s₀, origin i as = some s₀ → P s₀ ∧ debt s₀ = 0) (h : Reached step as f out) :
    (out.map fun x => weight x.2).sum ≤ ((deliveries as).map fun x => cost x.2).sum := by
  let is : Finset ι := (out.map Prod.fst ++ (deliveries as).map Prod.fst).toFinset
  have hout : ∀ x ∈ out, x.1 ∈ is := fun x hx =>
    List.mem_toFinset.mpr (List.mem_append_left _ (List.mem_map_of_mem hx))
  have hin : ∀ x ∈ deliveries as, x.1 ∈ is := fun x hx =>
    List.mem_toFinset.mpr (List.mem_append_right _ (List.mem_map_of_mem hx))
  rw [← sum_tagged weight hout, ← sum_tagged cost hin]
  refine Finset.sum_le_sum fun i _ => ?_
  rw [h.tagged_eq i]
  rcases ho : origin i as with _ | s₀
  · exact Nat.zero_le _
  · obtain ⟨hP, hdebt⟩ := h0 i s₀ ho
    have hle := output_le hs (received i as) hP
    rw [hdebt, Nat.zero_add] at hle
    exact (Nat.le_add_right _ _).trans hle

end Reached

end DnsMultiZone.Lib.Family
