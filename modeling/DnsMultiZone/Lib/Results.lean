import Mathlib.Logic.Basic

/-! # Computations that can fail

What a success of a computation in `Except` says about its parts, whatever the errors are. -/

namespace DnsMultiZone.Lib.Results

variable {ε α β : Type} {x : Except ε α}

theorem ok_of_bind {f : α → Except ε β} {r : β} (h : x >>= f = .ok r) :
    ∃ a, x = .ok a ∧ f a = .ok r := by
  rcases x with e | a
  · cases h
  · exact ⟨a, rfl, h⟩

theorem bind_of_ok {a : α} (h : x = .ok a) (f : α → Except ε β) : x >>= f = f a := by
  rw [h]
  rfl

theorem ok_of_map {f : α → β} {r : β} (h : x.map f = .ok r) : ∃ a, x = .ok a ∧ f a = r := by
  rcases x with e | a
  · cases h
  · exact ⟨a, rfl, Except.ok.inj h⟩

theorem map_bind {γ : Type} (f : α → Except ε β) (g : β → γ) :
    (x >>= f).map g = x >>= fun a => (f a).map g := by
  rcases x with e | a <;> rfl

end DnsMultiZone.Lib.Results
