import Mathlib.Order.BooleanAlgebra.Set

/-! # Logs of handles

A log says which handles were acquired and released, in order. It is balanced for the set of handles
that are held if about every handle it says: acquired, released, acquired, released, and so on, with one
acquisition more for a handle that is held. So no handle is released twice or without having been
acquired, and one that is not held has been released as often as it was acquired.

* `Balanced.acquire`, `Balanced.release`: one operation.
* `Balanced.append`: one log after another.
* `Balanced.part`: a log of some of the handles. -/

namespace DnsMultiZone.Lib.Handles

inductive Op (α : Type)
  | acquire (a : α)
  | release (a : α)
  deriving DecidableEq

variable {α : Type}

/-- The handle an operation is about. -/
def Op.handle : Op α → α
  | .acquire a => a
  | .release a => a

/-- `n` times acquired and released. -/
def pairs (a : α) : ℕ → List (Op α)
  | 0 => []
  | n + 1 => pairs a n ++ [.acquire a, .release a]

theorem pairs_add (a : α) (n m : ℕ) : pairs a n ++ pairs a m = pairs a (n + m) := by
  induction m with
  | zero => exact List.append_nil _
  | succ m ih => rw [← Nat.add_assoc, pairs, pairs, ← List.append_assoc, ih]

variable [DecidableEq α]

/-- What a log says about one handle. -/
def about (a : α) (log : List (Op α)) : List (Op α) := log.filter fun o => o.handle = a

/-- **Every handle is released exactly once** for each time it is acquired, if it is not held. -/
structure Balanced (held : Set α) (log : List (Op α)) : Prop where
  open_of_mem : ∀ a ∈ held, ∃ n, about a log = pairs a n ++ [.acquire a]
  closed_of_notMem : ∀ a ∉ held, ∃ n, about a log = pairs a n

variable {held : Set α} {log : List (Op α)} {a b : α}

theorem about_append (l₁ l₂ : List (Op α)) : about a (l₁ ++ l₂) = about a l₁ ++ about a l₂ :=
  List.filter_append ..

theorem about_of_ne {o : Op α} (h : b ≠ o.handle) : about b [o] = [] := by simp [about, h.symm]

theorem about_handle (o : Op α) : about o.handle [o] = [o] := by simp [about]

theorem balanced_nil : Balanced (∅ : Set α) [] := ⟨fun _ h => h.elim, fun _ _ => ⟨0, rfl⟩⟩

theorem Balanced.acquire (h : Balanced held log) (ha : a ∉ held) :
    Balanced (insert a held) (log ++ [.acquire a]) := by
  constructor
  · intro b hb
    by_cases hab : b = a
    · subst hab
      obtain ⟨n, hn⟩ := h.closed_of_notMem b ha
      exact ⟨n, by rw [about_append, hn]; exact congrArg _ (about_handle (.acquire b))⟩
    · obtain ⟨n, hn⟩ := h.open_of_mem b (hb.resolve_left hab)
      exact ⟨n, by rw [about_append, hn, about_of_ne hab, List.append_nil]⟩
  · intro b hb
    rw [Set.mem_insert_iff, not_or] at hb
    obtain ⟨n, hn⟩ := h.closed_of_notMem b hb.2
    exact ⟨n, by rw [about_append, hn, about_of_ne hb.1, List.append_nil]⟩

theorem Balanced.release (h : Balanced held log) (ha : a ∈ held) :
    Balanced (held \ {a}) (log ++ [.release a]) := by
  constructor
  · rintro b ⟨hb, hab⟩
    obtain ⟨n, hn⟩ := h.open_of_mem b hb
    exact ⟨n, by rw [about_append, hn, about_of_ne (o := .release a) hab, List.append_nil]⟩
  · intro b hb
    by_cases hab : b = a
    · subst hab
      obtain ⟨n, hn⟩ := h.open_of_mem b ha
      refine ⟨n + 1, ?_⟩
      rw [about_append, hn, List.append_assoc]
      exact congrArg _ (congrArg _ (about_handle (.release b)))
    · obtain ⟨n, hn⟩ := h.closed_of_notMem b fun hb' => hb ⟨hb', hab⟩
      exact ⟨n, by rw [about_append, hn, about_of_ne hab, List.append_nil]⟩

theorem Balanced.acquire_release (h : Balanced held log) (ha : a ∉ held) :
    Balanced held (log ++ [.acquire a, .release a]) := by
  have hb := (h.acquire ha).release (Set.mem_insert a held)
  rwa [List.append_assoc, Set.insert_sdiff_self_of_notMem ha] at hb

/-! ### One log after another -/

/-- The first that a log says about a handle is that it is acquired. -/
theorem Balanced.first (h : Balanced held log) (a : α) :
    about a log = [] ∨ ∃ l, about a log = .acquire a :: l := by
  have hpairs : ∀ n, pairs a n = [] ∨ ∃ l, pairs a n = .acquire a :: l := by
    intro n
    rcases n with _ | n
    · exact .inl rfl
    · rw [Nat.add_comm n 1, ← pairs_add]
      exact .inr ⟨_, rfl⟩
  by_cases ha : a ∈ held
  · obtain ⟨n, hn⟩ := h.open_of_mem a ha
    rw [hn]
    rcases hpairs n with hp | ⟨l, hp⟩ <;> rw [hp]
    · exact .inr ⟨[], rfl⟩
    · exact .inr ⟨_, rfl⟩
  · obtain ⟨n, hn⟩ := h.closed_of_notMem a ha
    rw [hn]
    exact hpairs n

theorem Balanced.append {held' : Set α} {log' : List (Op α)} (h : Balanced held log)
    (h' : Balanced held' log') (hn : ∀ a ∈ held, about a log' = []) :
    Balanced (held ∪ held') (log ++ log') := by
  constructor
  · intro a ha
    rw [about_append]
    by_cases hold : a ∈ held
    · rw [hn a hold, List.append_nil]
      exact h.open_of_mem a hold
    · obtain ⟨n, hn⟩ := h.closed_of_notMem a hold
      obtain ⟨m, hm⟩ := h'.open_of_mem a (ha.resolve_left hold)
      exact ⟨n + m, by rw [hn, hm, ← List.append_assoc, pairs_add]⟩
  · intro a ha
    obtain ⟨hold, hnew⟩ := not_or.mp ha
    obtain ⟨n, hn⟩ := h.closed_of_notMem a hold
    obtain ⟨m, hm⟩ := h'.closed_of_notMem a hnew
    exact ⟨n + m, by rw [about_append, hn, hm, pairs_add]⟩

/-! ### A part of the handles -/

/-- What a log says about handles with a property. -/
def aboutAll (p : α → Prop) [DecidablePred p] (log : List (Op α)) : List (Op α) := log.filter (p ·.handle)

section Part
variable {p : α → Prop} [DecidablePred p]

omit [DecidableEq α] in
theorem aboutAll_append (l₁ l₂ : List (Op α)) : aboutAll p (l₁ ++ l₂) = aboutAll p l₁ ++ aboutAll p l₂ :=
  List.filter_append ..

omit [DecidableEq α] in
theorem aboutAll_of {o : Op α} (h : p o.handle) : aboutAll p [o] = [o] := by simp [aboutAll, h]

omit [DecidableEq α] in
theorem aboutAll_of_not {o : Op α} (h : ¬ p o.handle) : aboutAll p [o] = [] := by simp [aboutAll, h]

theorem about_aboutAll (h : p a) (log : List (Op α)) : about a (aboutAll p log) = about a log := by
  unfold about aboutAll
  rw [List.filter_filter]
  refine List.filter_congr fun o _ => ?_
  by_cases ho : o.handle = a
  · simp [ho, h]
  · simp [ho]

theorem about_aboutAll_of_not (h : ¬ p a) (log : List (Op α)) : about a (aboutAll p log) = [] := by
  unfold about aboutAll
  rw [List.filter_filter, List.filter_eq_nil_iff]
  rintro o - ho
  simp only [Bool.and_eq_true, decide_eq_true_eq] at ho
  exact h (ho.1 ▸ ho.2)

theorem Balanced.part (h : Balanced held log) : Balanced {a | a ∈ held ∧ p a} (aboutAll p log) := by
  constructor
  · rintro a ⟨ha, hp⟩
    rw [about_aboutAll hp]
    exact h.open_of_mem a ha
  · intro a ha
    by_cases hp : p a
    · rw [about_aboutAll hp]
      exact h.closed_of_notMem a fun hm => ha ⟨hm, hp⟩
    · exact ⟨0, about_aboutAll_of_not hp log⟩

end Part

end DnsMultiZone.Lib.Handles
