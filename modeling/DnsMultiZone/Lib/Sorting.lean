import Mathlib.Data.List.Sort

/-! # Any correct sort

`std::sort` leaves equivalent elements in any order. `StdSort lt` is a function that sorts by `lt` in
some such way: it permutes its argument, and no element comes after one it is less than.
`StdSort.insertion` is one, for a total preorder. -/

namespace DnsMultiZone.Lib.Sorting

/-- A sort by the strict weak order `lt`. -/
structure StdSort {α : Type} (lt : α → α → Bool) where
  sort : List α → List α
  perm : ∀ l, (sort l).Perm l
  sorted : ∀ l, (sort l).Pairwise fun a b => lt b a = false

/-- Insertion sort, for an order that is asymmetric and negatively transitive. -/
def StdSort.insertion {α : Type} (lt : α → α → Bool)
    (asymm : ∀ a b, lt a b = true → lt b a = false)
    (trans : ∀ a b c, lt b a = false → lt c b = false → lt c a = false) : StdSort lt where
  sort l := l.insertionSort fun a b => lt b a = false
  perm l := List.perm_insertionSort _ l
  sorted l := by
    have : IsTrans α fun a b => lt b a = false := ⟨trans⟩
    have : Std.Total fun a b => lt b a = false := ⟨fun a b => by
      cases h : lt b a
      · exact Or.inl rfl
      · exact Or.inr (asymm b a h)⟩
    exact List.pairwise_insertionSort _ l

end DnsMultiZone.Lib.Sorting
