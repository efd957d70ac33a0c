import Mathlib.Data.List.AList

/-! # Finite maps

`std::map` is Mathlib's `AList`: no key twice, and the order of the entries is not looked at.
`mapVal` changes every value. -/

namespace DnsMultiZone.Lib.Assoc

/-- A finite map. -/
abbrev Map (α β : Type) := AList fun _ : α => β

variable {α β γ : Type}

/-- The map with `f` applied to every value. -/
def mapVal (f : β → γ) (m : Map α β) : Map α γ where
  entries := m.entries.map (Sigma.map id fun _ => f)
  nodupKeys := by
    have h := m.nodupKeys
    unfold List.NodupKeys List.keys at h ⊢
    rw [List.map_map]
    exact h

variable [DecidableEq α]

@[simp] theorem lookup_mapVal (f : β → γ) (m : Map α β) (a : α) :
    (mapVal f m).lookup a = (m.lookup a).map f :=
  List.dlookup_map₂ (γ := fun _ => β) (δ := fun _ => γ) a

theorem mem_of_lookup {m : Map α β} {a : α} {v : β} (h : m.lookup a = some v) : a ∈ m :=
  AList.lookup_isSome.mp (Option.isSome_of_eq_some h)

theorem lookup_insert_cases {m : Map α β} {a b : α} {v w : β} (h : (m.insert b w).lookup a = some v) :
    (a = b ∧ v = w) ∨ (a ≠ b ∧ m.lookup a = some v) := by
  by_cases hab : a = b
  · subst hab
    rw [AList.lookup_insert] at h
    exact Or.inl ⟨rfl, (Option.some.inj h).symm⟩
  · rw [AList.lookup_insert_ne hab] at h
    exact Or.inr ⟨hab, h⟩

theorem lookup_insert_iff {m : Map α β} {a b : α} {v w : β} (h : b ∉ m) :
    (m.insert b w).lookup a = some v ↔ (a = b ∧ v = w) ∨ m.lookup a = some v := by
  refine ⟨fun hl => (lookup_insert_cases hl).imp_right And.right, ?_⟩
  rintro (⟨rfl, rfl⟩ | hl)
  · exact AList.lookup_insert m
  · have hab : a ≠ b := fun he => h (he ▸ mem_of_lookup hl)
    rw [AList.lookup_insert_ne hab, hl]

theorem lookup_erase_some {m : Map α β} {a b : α} {v : β} (h : (m.erase b).lookup a = some v) :
    a ≠ b ∧ m.lookup a = some v := by
  by_cases hab : a = b
  · subst hab
    rw [AList.lookup_erase] at h
    cases h
  · rw [AList.lookup_erase_ne hab] at h
    exact ⟨hab, h⟩

theorem eq_empty_of_lookup {m : Map α β} (h : ∀ a, m.lookup a = none) : m = ∅ := by
  have hkeys : m.keys = [] := List.eq_nil_iff_forall_not_mem.mpr fun a ha =>
    AList.lookup_eq_none.mp (h a) (AList.mem_keys.mpr ha)
  exact AList.ext (List.map_eq_nil_iff.mp hkeys)

end DnsMultiZone.Lib.Assoc
