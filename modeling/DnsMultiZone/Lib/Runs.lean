import Mathlib.Data.List.Basic

/-! # Runs of a system that reacts to events

A deterministic system takes an event to a new state and an output. `Run step ok s₀ tr s` is a run
from `s₀` to `s` in which every step is allowed by `ok`. Its trace `tr` lists the steps, the newest
first, each with the state before it and what it put out; so the part of the trace after an entry is
the past of that entry.

* `Run.inv`: what holds of the empty trace and is kept by every step holds of every run.
* `Run.at_entry`: an entry is a step of the system, after a run that is the entry's past.
* `Run.mono`: a run with stricter steps is a run.
* `exec` runs a list of events; it is a run if every step is allowed (`Run.exec`, `run_exec`).
* `after` is the state it ends in (`exec_snd`), and `Allowed.inv` its invariant. -/

namespace DnsMultiZone.Lib.Runs

variable {σ ε ω : Type}

/-- One step of a run. -/
structure Entry (σ ε ω : Type) where
  before : σ
  event : ε
  out : ω

/-- **Runs** whose steps are all allowed, with their traces. -/
inductive Run (step : ε → σ → σ × ω) (ok : σ → ε → Prop) (s₀ : σ) : List (Entry σ ε ω) → σ → Prop
  | start : Run step ok s₀ [] s₀
  | next {tr : List (Entry σ ε ω)} {s : σ} (e : ε) (h : Run step ok s₀ tr s) (hok : ok s e) :
      Run step ok s₀ (⟨s, e, (step e s).2⟩ :: tr) (step e s).1

/-- Every step is allowed. -/
def anyStep : σ → ε → Prop := fun _ _ => True

variable {step : ε → σ → σ × ω} {ok : σ → ε → Prop} {s₀ s : σ} {tr : List (Entry σ ε ω)}

theorem Run.inv {P : List (Entry σ ε ω) → σ → Prop} (h0 : P [] s₀)
    (hs : ∀ tr s e, P tr s → ok s e → P (⟨s, e, (step e s).2⟩ :: tr) (step e s).1)
    (h : Run step ok s₀ tr s) : P tr s := by
  induction h with
  | start => exact h0
  | next e _ hok ih => exact hs _ _ e ih hok

theorem Run.mono {ok' : σ → ε → Prop} (hle : ∀ s e, ok s e → ok' s e) (h : Run step ok s₀ tr s) :
    Run step ok' s₀ tr s := by
  induction h with
  | start => exact Run.start
  | next e _ hok ih => exact Run.next e ih (hle _ _ hok)

/-- An entry of a trace is a step, and what stands after it is the run before that step. -/
theorem Run.at_entry (h : Run step ok s₀ tr s) {x : Entry σ ε ω} {tr' tr₀ : List (Entry σ ε ω)}
    (he : tr = tr' ++ x :: tr₀) :
    Run step ok s₀ tr₀ x.before ∧ ok x.before x.event ∧ x.out = (step x.event x.before).2 := by
  induction h generalizing tr' with
  | start => simp at he
  | next e h hok ih =>
    rcases tr' with _ | ⟨y, tr'⟩
    · obtain ⟨rfl, rfl⟩ := List.cons.inj he
      exact ⟨h, hok, rfl⟩
    · exact ih (List.cons.inj he).2

/-- The run of a list of events. -/
def exec (step : ε → σ → σ × ω) : List ε → List (Entry σ ε ω) → σ → List (Entry σ ε ω) × σ
  | [], tr, s => (tr, s)
  | e :: es, tr, s => exec step es (⟨s, e, (step e s).2⟩ :: tr) (step e s).1

/-- Every step of a list of events is allowed. -/
def Allowed (step : ε → σ → σ × ω) (ok : σ → ε → Prop) : List ε → σ → Prop
  | [], _ => True
  | e :: es, s => ok s e ∧ Allowed step ok es (step e s).1

instance decidableAllowed [∀ s e, Decidable (ok s e)] : ∀ es s, Decidable (Allowed step ok es s)
  | [], _ => isTrue trivial
  | e :: es, s =>
    have : Decidable (Allowed step ok es (step e s).1) := decidableAllowed es (step e s).1
    inferInstanceAs (Decidable (ok s e ∧ Allowed step ok es (step e s).1))

/-- The state after a list of events. -/
def after (step : ε → σ → σ × ω) : List ε → σ → σ
  | [], s => s
  | e :: es, s => after step es (step e s).1

theorem exec_snd (es : List ε) (tr : List (Entry σ ε ω)) (s : σ) :
    (exec step es tr s).2 = after step es s := by
  induction es generalizing tr s with
  | nil => rfl
  | cons e es ih => exact ih _ _

theorem after_append (es₁ es₂ : List ε) (s : σ) :
    after step (es₁ ++ es₂) s = after step es₂ (after step es₁ s) := by
  induction es₁ generalizing s with
  | nil => rfl
  | cons e es₁ ih => exact ih _

theorem allowed_cons {e : ε} {es : List ε} {s : σ} : Allowed step ok (e :: es) s ↔
    ok s e ∧ Allowed step ok es (step e s).1 := Iff.rfl

theorem allowed_append {es₁ es₂ : List ε} {s : σ} : Allowed step ok (es₁ ++ es₂) s ↔
    Allowed step ok es₁ s ∧ Allowed step ok es₂ (after step es₁ s) := by
  induction es₁ generalizing s with
  | nil => exact (and_iff_right trivial).symm
  | cons e es₁ ih =>
    rw [List.cons_append, allowed_cons, ih, allowed_cons, and_assoc]
    rfl

/-- What every allowed step keeps, a list of them keeps. -/
theorem Allowed.inv {P : σ → Prop} (hs : ∀ s e, P s → ok s e → P (step e s).1) {es : List ε}
    (h : Allowed step ok es s) (hP : P s) : P (after step es s) := by
  induction es generalizing s with
  | nil => exact hP
  | cons e es ih => exact ih h.2 (hs s e hP h.1)

theorem Run.exec (h : Run step ok s₀ tr s) {es : List ε} (hok : Allowed step ok es s) :
    Run step ok s₀ (exec step es tr s).1 (exec step es tr s).2 := by
  induction es generalizing tr s with
  | nil => exact h
  | cons e es ih => exact ih (Run.next e h hok.1) hok.2

theorem allowed_anyStep (es : List ε) (s : σ) : Allowed step anyStep es s := by
  induction es generalizing s with
  | nil => trivial
  | cons e es ih => exact ⟨trivial, ih _⟩

theorem run_exec (step : ε → σ → σ × ω) (s₀ : σ) (es : List ε) :
    Run step anyStep s₀ (exec step es [] s₀).1 (exec step es [] s₀).2 :=
  Run.start.exec (allowed_anyStep es s₀)

end DnsMultiZone.Lib.Runs
