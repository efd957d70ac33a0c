import Mathlib.Data.List.TakeWhile

/-! # Tokens

The tokens of a text are its nonempty parts between separators. A separator behind a text, or before it, is
not seen (`tokens_append_sep`, `tokens_dropWhile`); `tokens_cons` takes the first token off. -/

namespace DnsMultiZone.Lib.Tokens

variable {α : Type} {p : α → Bool} {c : α}

/-- The tokens of a text with separators `p`. -/
def tokens (p : α → Bool) (s : List α) : List (List α) := (s.splitOnP p).filter (!·.isEmpty)

@[simp] theorem tokens_nil : tokens p [] = [] := rfl

theorem tokens_append_cons (s t : List α) (hc : p c = true) :
    tokens p (s ++ c :: t) = tokens p s ++ tokens p t := by
  rw [tokens, List.splitOnP_append_cons _ _ hc, List.filter_append]
  rfl

theorem tokens_append_sep (s : List α) (hc : p c = true) : tokens p (s ++ [c]) = tokens p s := by
  rw [tokens_append_cons s [] hc, tokens_nil, List.append_nil]

theorem tokens_dropWhile (s : List α) : tokens p (s.dropWhile p) = tokens p s := by
  induction s with
  | nil => rfl
  | cons c s ih =>
    by_cases hc : p c = true
    · rw [List.dropWhile_cons_of_pos hc, ih]
      exact (tokens_append_cons [] s hc).symm
    · rw [List.dropWhile_cons_of_neg hc]

theorem tokens_of_forall {s : List α} (hs : s ≠ []) (h : ∀ x ∈ s, p x = false) : tokens p s = [s] := by
  rw [tokens, List.splitOnP_eq_singleton h]
  rcases s with _ | ⟨c, s⟩
  · exact absurd rfl hs
  · rfl

/-- **The first token**, of a text that does not begin with a separator, and the others. -/
theorem tokens_cons {cs : List α} (hc : p c = false) : tokens p (c :: cs) =
    (c :: cs).takeWhile (!p ·) :: tokens p (((c :: cs).dropWhile (!p ·)).drop 1) := by
  have hfree : ∀ x ∈ (c :: cs).takeWhile (!p ·), p x = false := fun x hx => by
    simpa using List.mem_takeWhile_imp hx
  have hne : (c :: cs).takeWhile (!p ·) ≠ [] := by simp [hc]
  have hsplit : (c :: cs).takeWhile (!p ·) ++ (c :: cs).dropWhile (!p ·) = c :: cs :=
    List.takeWhile_append_dropWhile
  rcases hd : (c :: cs).dropWhile (!p ·) with _ | ⟨d, ds⟩
  · rw [hd, List.append_nil] at hsplit
    rw [hsplit] at hfree hne ⊢
    exact tokens_of_forall hne hfree
  · have hsep : p d = true := by
      have h := List.head?_dropWhile_not (!p ·) (c :: cs)
      rw [hd] at h
      simpa using h
    rw [hd] at hsplit
    calc tokens p (c :: cs) = tokens p ((c :: cs).takeWhile (!p ·) ++ d :: ds) := congrArg _ hsplit.symm
      _ = tokens p ((c :: cs).takeWhile (!p ·)) ++ tokens p ds := tokens_append_cons _ _ hsep
      _ = _ := by rw [tokens_of_forall hne hfree]; rfl

end DnsMultiZone.Lib.Tokens
