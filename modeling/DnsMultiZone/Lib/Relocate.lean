import Mathlib.Algebra.BigOperators.Group.List.Basic
import Mathlib.Algebra.Ring.Nat

/-! # Offsets when items are removed

A list of items with sizes is laid out from an offset. Some items are taken out; `removals` lists the
offset and size of each. Every offset inside an item that stays moves back by the sizes of the removed
items that start before it (`relocate`): the offset it has in the layout of the items that stay.

* `sumBefore_removals`: the removed items that start before an offset in an item that stays.
* `relocate`: that offset after the removal.
* `relocate_relocate`: two removals, one after the other, move an offset as one removal of both does.
* `sumBefore_le_iff`, `sum_lt_iff`: for removed pieces that lie one after another, when no more is removed
  before an offset than is there, and when something stays between two offsets. -/

namespace DnsMultiZone.Lib.Relocate

variable {α : Type} (size : α → ℕ) (gone : α → Bool)

/-- The size of a list of items. -/
def total (l : List α) : ℕ := (l.map size).sum

/-- Offset and size of each removed item of a list laid out from `p`. -/
def removals : ℕ → List α → List (ℕ × ℕ)
  | _, [] => []
  | p, x :: l => if gone x then (p, size x) :: removals (p + size x) l else removals (p + size x) l

/-- The sizes of what is removed before offset `t`. -/
def sumBefore (v : List (ℕ × ℕ)) (t : ℕ) : ℕ := ((v.filter fun r => r.1 < t).map Prod.snd).sum

variable {size gone} {l l₁ l₂ : List α} {x : α} {p t k : ℕ} {v v' : List (ℕ × ℕ)}

@[simp] theorem total_nil : total size [] = 0 := rfl

@[simp] theorem total_cons : total size (x :: l) = size x + total size l := by simp [total]

@[simp] theorem total_append : total size (l₁ ++ l₂) = total size l₁ + total size l₂ := by
  simp [total]

theorem removals_cons_of_gone (h : gone x = true) :
    removals size gone p (x :: l) = (p, size x) :: removals size gone (p + size x) l := by
  rw [removals, if_pos h]

theorem removals_cons_of_stays (h : gone x = false) :
    removals size gone p (x :: l) = removals size gone (p + size x) l := by
  rw [removals, if_neg (by simp [h])]

theorem removals_append :
    removals size gone p (l₁ ++ l₂) =
      removals size gone p l₁ ++ removals size gone (p + total size l₁) l₂ := by
  induction l₁ generalizing p with
  | nil => rfl
  | cons y l₁ ih =>
    rw [List.cons_append, removals, removals, ih, total_cons, ← Nat.add_assoc]
    by_cases hy : gone y <;> simp [hy]

theorem mem_removals {r : ℕ × ℕ} (h : r ∈ removals size gone p l) :
    p ≤ r.1 ∧ r.1 + r.2 ≤ p + total size l ∧ ∃ y ∈ l, gone y = true ∧ r.2 = size y := by
  induction l generalizing p with
  | nil => cases h
  | cons y l ih =>
    have hrec : r ∈ removals size gone (p + size y) l →
        p ≤ r.1 ∧ r.1 + r.2 ≤ p + total size (y :: l) ∧
          ∃ z ∈ y :: l, gone z = true ∧ r.2 = size z := by
      intro hr
      obtain ⟨h₁, h₂, z, hz, hg, hs⟩ := ih hr
      rw [total_cons]
      exact ⟨by omega, by omega, z, List.mem_cons_of_mem _ hz, hg, hs⟩
    rw [removals] at h
    by_cases hy : gone y
    · rw [if_pos hy] at h
      rcases List.mem_cons.mp h with rfl | h
      · rw [total_cons]
        exact ⟨Nat.le_refl _, by dsimp only; omega, y, List.mem_cons_self, hy, rfl⟩
      · exact hrec h
    · rw [if_neg hy] at h
      exact hrec h

theorem removals_eq_nil : removals size gone p l = [] ↔ ∀ y ∈ l, gone y = false := by
  induction l generalizing p with
  | nil => simp [removals]
  | cons y l ih =>
    rw [removals]
    by_cases hy : gone y <;> simp [hy, ih]

theorem sum_removals : ((removals size gone p l).map Prod.snd).sum = total size (l.filter gone) := by
  induction l generalizing p with
  | nil => rfl
  | cons y l ih =>
    rw [removals]
    by_cases hy : gone y <;> simp [hy, ih]

theorem total_filter_add (size : α → ℕ) (gone : α → Bool) (l : List α) :
    total size (l.filter gone) + total size (l.filter fun y => !gone y) = total size l := by
  induction l with
  | nil => rfl
  | cons y l ih =>
    by_cases hy : gone y
    · simp [hy]
      omega
    · simp [hy]
      omega

/-! ### What is removed before an offset -/

theorem sumBefore_append : sumBefore (v ++ v') t = sumBefore v t + sumBefore v' t := by
  simp [sumBefore]

theorem sumBefore_eq_zero (h : ∀ r ∈ v, t ≤ r.1) : sumBefore v t = 0 := by
  unfold sumBefore
  rw [List.filter_eq_nil_iff.mpr fun r hr => by simpa using h r hr]
  rfl

theorem sumBefore_eq_sum (h : ∀ r ∈ v, r.1 < t) : sumBefore v t = (v.map Prod.snd).sum := by
  unfold sumBefore
  rw [List.filter_eq_self.mpr fun r hr => by simpa using h r hr]

/-- What is removed from an offset on does not count before it. -/
theorem sumBefore_append_removals (h : t ≤ p) :
    sumBefore (v ++ removals size gone p l) t = sumBefore v t := by
  rw [sumBefore_append, sumBefore_eq_zero fun r hr => Nat.le_trans h (mem_removals hr).1,
    Nat.add_zero]

/-- **Before an offset in an item that stays**, exactly the removed items before that item start. -/
theorem sumBefore_removals (hx : gone x = false) (hk : k < size x)
    (hpos : ∀ y ∈ l₁, gone y = true → 0 < size y) :
    sumBefore (removals size gone p (l₁ ++ x :: l₂)) (p + total size l₁ + k) =
      total size (l₁.filter gone) := by
  rw [removals_append, removals_cons_of_stays hx, sumBefore_append_removals (by omega),
    sumBefore_eq_sum, sum_removals]
  intro r hr
  obtain ⟨-, hle, y, hy, hg, hs⟩ := mem_removals hr
  have := hpos y hy hg
  omega

/-- **An offset in an item that stays**, after the removal. -/
theorem relocate (hx : gone x = false) (hk : k < size x)
    (hpos : ∀ y ∈ l₁, gone y = true → 0 < size y) :
    p + total size l₁ + k - sumBefore (removals size gone p (l₁ ++ x :: l₂)) (p + total size l₁ + k) =
      p + total size (l₁.filter fun y => !gone y) + k := by
  have := total_filter_add size gone l₁
  rw [sumBefore_removals hx hk hpos]
  omega

/-! ### Offsets that are not inside a removed item -/

variable {m₁ m₂ : List α} {gone' : α → Bool}

/-- The offset `k` bytes into the items is the start of the first one, or in it, and then it stays. -/
def Stands (size : α → ℕ) (gone : α → Bool) (l : List α) (k : ℕ) : Prop :=
  k = 0 ∨ ∃ x l', l = x :: l' ∧ gone x = false ∧ k < size x

theorem sumBefore_stands (h : Stands size gone l₂ k) (hpos : ∀ y ∈ l₁, gone y = true → 0 < size y) :
    sumBefore (removals size gone p (l₁ ++ l₂)) (p + total size l₁ + k) =
      total size (l₁.filter gone) := by
  rcases h with rfl | ⟨x, l', rfl, hx, hk⟩
  · rw [removals_append, Nat.add_zero, sumBefore_append_removals (Nat.le_refl _), sumBefore_eq_sum,
      sum_removals]
    intro r hr
    obtain ⟨-, hle, y, hy, hg, hs⟩ := mem_removals hr
    have := hpos y hy hg
    omega
  · exact sumBefore_removals hx hk hpos

/-- **Such an offset** after the removal. -/
theorem relocate_stands (h : Stands size gone l₂ k) (hpos : ∀ y ∈ l₁, gone y = true → 0 < size y) :
    p + total size l₁ + k - sumBefore (removals size gone p (l₁ ++ l₂)) (p + total size l₁ + k) =
      p + total size (l₁.filter fun y => !gone y) + k := by
  have := total_filter_add size gone l₁
  rw [sumBefore_stands h hpos]
  omega

/-- An offset of the layout that is not inside a removed item. -/
theorem stands_of_outside (hp : p ≤ t) (ht : t ≤ p + total size l)
    (hout : ∀ r ∈ removals size gone p l, ¬ (r.1 < t ∧ t < r.1 + r.2)) :
    ∃ l₁ l₂ k, l = l₁ ++ l₂ ∧ t = p + total size l₁ + k ∧ Stands size gone l₂ k := by
  induction l generalizing p with
  | nil =>
    rw [total_nil] at ht
    exact ⟨[], [], 0, rfl, by rw [total_nil]; omega, Or.inl rfl⟩
  | cons x l ih =>
    rw [total_cons] at ht
    rcases Nat.lt_or_ge t (p + size x) with hlt | hge
    · rcases Nat.eq_or_lt_of_le hp with rfl | hpt
      · exact ⟨[], x :: l, 0, rfl, by rw [total_nil]; omega, Or.inl rfl⟩
      · refine ⟨[], x :: l, t - p, rfl, by rw [total_nil]; omega, Or.inr ⟨x, l, rfl, ?_, by omega⟩⟩
        by_contra hx
        rw [removals_cons_of_gone (by simpa using hx)] at hout
        exact hout _ List.mem_cons_self ⟨hpt, hlt⟩
    · obtain ⟨l₁, l₂, k, rfl, hk, hs⟩ := ih hge (by omega) fun r hr => hout r (by
        rw [removals]
        split_ifs
        · exact List.mem_cons_of_mem _ hr
        · exact hr)
      exact ⟨x :: l₁, l₂, k, rfl, by rw [total_cons]; omega, hs⟩

theorem Stands.of_imp (h : Stands size gone l k) (himp : ∀ x, gone' x = true → gone x = true) :
    Stands size gone' l k := by
  refine h.imp_right fun ⟨x, l', hl, hx, hk⟩ => ⟨x, l', hl, ?_, hk⟩
  by_contra hx'
  have hgone := himp x (by simpa using hx')
  rw [hx] at hgone
  cases hgone

theorem Stands.filter (h : Stands size gone l k) (himp : ∀ x, gone' x = true → gone x = true) :
    Stands size gone (l.filter fun y => !gone' y) k := by
  refine h.imp_right fun ⟨x, l', hl, hx, hk⟩ => ⟨x, l'.filter fun y => !gone' y, ?_, hx, hk⟩
  have hx' : gone' x = false := by
    by_contra hn
    have hgone := himp x (by simpa using hn)
    rw [hx] at hgone
    cases hgone
  rw [hl, List.filter_cons_of_pos (by simp [hx'])]

/-- **The order is kept**: an offset before the end of an item that stays is before its end after the
removal. -/
theorem Stands.lt (h : Stands size gone l₂ k) (hl : l₁ ++ l₂ = m₁ ++ x :: m₂)
    (hpos : 0 < size x) (hlt : total size l₁ + k < total size m₁ + size x) :
    total size (l₁.filter fun y => !gone y) + k <
      total size (m₁.filter fun y => !gone y) + size x := by
  rcases List.append_eq_append_iff.mp hl with ⟨q, rfl, rfl⟩ | ⟨q, rfl, hq⟩
  · rw [List.filter_append, total_append]
    rcases h with rfl | ⟨y, l', hy, hgone, hk⟩
    · omega
    · rcases q with _ | ⟨z, q⟩
      · obtain ⟨rfl, -⟩ := List.cons.inj hy
        rw [List.filter_nil, total_nil]
        omega
      · obtain ⟨rfl, -⟩ := List.cons.inj hy
        rw [List.filter_cons_of_pos (by simp [hgone]), total_cons]
        omega
  · rcases q with _ | ⟨z, q⟩
    · rw [List.nil_append] at hq
      subst hq
      rw [List.append_nil] at hlt ⊢
      rcases h with rfl | ⟨y, l', hy, hgone, hk⟩
      · omega
      · obtain ⟨rfl, -⟩ := List.cons.inj hy
        omega
    · obtain ⟨rfl, -⟩ := List.cons.inj hq
      rw [total_append, total_cons] at hlt
      omega

/-- **Two removals** move such an offset as one does that takes out both kinds of items. -/
theorem relocate_relocate (h : Stands size (fun y => gone y || gone' y) l₂ k)
    (hpos : ∀ y ∈ l₁, (gone y || gone' y) = true → 0 < size y)
    (ht : t = p + total size l₁ + k - sumBefore (removals size gone p (l₁ ++ l₂))
      (p + total size l₁ + k)) :
    t - sumBefore (removals size gone' p ((l₁ ++ l₂).filter fun y => !gone y)) t =
      p + total size l₁ + k - sumBefore (removals size (fun y => gone y || gone' y) p (l₁ ++ l₂))
        (p + total size l₁ + k) := by
  have hor : ∀ y, gone y = true → (gone y || gone' y) = true := fun y hy => by rw [hy]; rfl
  have hor' : ∀ y, gone' y = true → (gone y || gone' y) = true := fun y hy => by rw [hy, Bool.or_true]
  rw [relocate_stands (h.of_imp hor) fun y hy hg => hpos y hy (hor y hg)] at ht
  rw [relocate_stands h hpos, ht, List.filter_append,
    relocate_stands ((h.filter hor).of_imp hor') fun y hy hg =>
      hpos y (List.mem_filter.mp hy).1 (hor' y hg), List.filter_filter]
  have hall : (fun y => !gone' y && !gone y) = fun y => !(gone y || gone' y) :=
    funext fun y => by rw [Bool.not_or, Bool.and_comm]
  rw [hall]

/-! ### Pieces one after another -/

/-- The pieces lie one after another between `a` and `b`. -/
def InOrder : ℕ → List (ℕ × ℕ) → ℕ → Prop
  | a, [], b => a ≤ b
  | a, r :: v, b => a ≤ r.1 ∧ InOrder (r.1 + r.2) v b

/-- The sizes of what is removed from offset `t` on. -/
def sumFrom (v : List (ℕ × ℕ)) (t : ℕ) : ℕ := ((v.filter fun r => t ≤ r.1).map Prod.snd).sum

variable {a b : ℕ} {r : ℕ × ℕ}

theorem InOrder.sum_le (h : InOrder a v b) : a + (v.map Prod.snd).sum ≤ b := by
  induction v generalizing a with
  | nil => exact h
  | cons r v ih =>
    have hrest := ih h.2
    have hle := h.1
    rw [List.map_cons, List.sum_cons]
    omega

theorem InOrder.mem (h : InOrder a v b) (hr : r ∈ v) : a ≤ r.1 ∧ r.1 + r.2 ≤ b := by
  induction v generalizing a with
  | nil => cases hr
  | cons x v ih =>
    have hsum := h.2.sum_le
    have hle := h.1
    rcases List.mem_cons.mp hr with rfl | hr
    · omega
    · have hrest := ih h.2 hr
      omega

theorem InOrder.mono (h : InOrder a v b) {b' : ℕ} (hb : b ≤ b') : InOrder a v b' := by
  induction v generalizing a with
  | nil => exact Nat.le_trans h hb
  | cons r v ih => exact ⟨h.1, ih h.2⟩

theorem InOrder.weaken (h : InOrder a v b) {a' : ℕ} (ha : a' ≤ a) : InOrder a' v b := by
  rcases v with _ | ⟨r, v⟩
  · exact Nat.le_trans ha h
  · exact ⟨Nat.le_trans ha h.1, h.2⟩

theorem InOrder.snoc (h : InOrder a v b) (n : ℕ) : InOrder a (v ++ [(b, n)]) (b + n) := by
  induction v generalizing a with
  | nil => exact ⟨h, Nat.le_refl _⟩
  | cons r v ih => exact ⟨h.1, ih h.2⟩

@[simp] theorem sumBefore_cons :
    sumBefore (r :: v) t = (if r.1 < t then r.2 else 0) + sumBefore v t := by
  unfold sumBefore
  by_cases hr : r.1 < t <;> simp [hr]

@[simp] theorem sumFrom_cons : sumFrom (r :: v) t = (if t ≤ r.1 then r.2 else 0) + sumFrom v t := by
  unfold sumFrom
  by_cases hr : t ≤ r.1 <;> simp [hr]

theorem sumBefore_add_sumFrom (v : List (ℕ × ℕ)) (t : ℕ) :
    sumBefore v t + sumFrom v t = (v.map Prod.snd).sum := by
  induction v with
  | nil => rfl
  | cons r v ih =>
    rw [sumBefore_cons, sumFrom_cons, List.map_cons, List.sum_cons]
    by_cases hr : r.1 < t
    · rw [if_pos hr, if_neg (by omega)]
      omega
    · rw [if_neg hr, if_pos (by omega)]
      omega

/-- An offset inside a piece has the piece and all pieces before it removed before it. -/
theorem InOrder.sumBefore_inside (h : InOrder a v b) (hr : r ∈ v) (hlt : r.1 < t)
    (hin : t < r.1 + r.2) : sumBefore v t = sumBefore v r.1 + r.2 := by
  induction v generalizing a with
  | nil => cases hr
  | cons x v ih =>
    rw [sumBefore_cons, sumBefore_cons]
    rcases List.mem_cons.mp hr with rfl | hmem
    · have hafter : ∀ t' ≤ r.1 + r.2, sumBefore v t' = 0 := fun t' ht =>
        sumBefore_eq_zero fun y hy => Nat.le_trans ht (h.2.mem hy).1
      rw [hafter t (by omega), hafter r.1 (by omega), if_pos hlt, if_neg (by omega)]
      omega
    · have hle := (h.2.mem hmem).1
      rw [ih h.2 hmem, if_pos (by omega)]
      by_cases hx : x.1 < r.1
      · rw [if_pos hx]
        omega
      · rw [if_neg hx]
        omega

theorem InOrder.sumBefore_le (h : InOrder a v b)
    (hout : ∀ r ∈ v, r.1 < t → r.1 + r.2 ≤ t) (ha : a ≤ t) : a + sumBefore v t ≤ t := by
  induction v generalizing a with
  | nil => exact ha
  | cons r v ih =>
    have hle := h.1
    have hrest : r.1 + r.2 ≤ t → r.1 + r.2 + sumBefore v t ≤ t :=
      ih h.2 fun y hy => hout y (List.mem_cons_of_mem _ hy)
    rw [sumBefore_cons]
    by_cases hr : r.1 < t
    · have hsum := hrest (hout r List.mem_cons_self hr)
      rw [if_pos hr]
      omega
    · have hzero : sumBefore v t = 0 := sumBefore_eq_zero fun y hy => by
        have hafter := (h.2.mem hy).1
        omega
      rw [if_neg hr, hzero]
      omega

/-- **No more is removed before an offset than is there**, if and only if this is so for the piece the
offset is inside of. -/
theorem InOrder.sumBefore_le_iff (h : InOrder 0 v b) : sumBefore v t ≤ t ↔
    ∀ r ∈ v, r.1 < t → t < r.1 + r.2 → sumBefore v r.1 + r.2 ≤ t := by
  constructor
  · intro hle r hr hlt hin
    rwa [← h.sumBefore_inside hr hlt hin]
  · intro hall
    by_cases hex : ∃ r ∈ v, r.1 < t ∧ t < r.1 + r.2
    · obtain ⟨r, hr, hlt, hin⟩ := hex
      rw [h.sumBefore_inside hr hlt hin]
      exact hall r hr hlt hin
    · have hout : ∀ r ∈ v, r.1 < t → r.1 + r.2 ≤ t := fun r hr hlt => by
        by_contra hn
        exact hex ⟨r, hr, hlt, by omega⟩
      have hsum := h.sumBefore_le hout (Nat.zero_le t)
      omega

/-- **Something stays** between `a` and `b`, if and only if there is an offset in no piece. -/
theorem InOrder.sum_lt_iff (h : InOrder a v b) : a + (v.map Prod.snd).sum < b ↔
    ∃ i < b, a ≤ i ∧ ∀ r ∈ v, ¬ (r.1 ≤ i ∧ i < r.1 + r.2) := by
  induction v generalizing a with
  | nil =>
    constructor
    · intro hlt
      exact ⟨a, hlt, Nat.le_refl a, fun r hr => by cases hr⟩
    · rintro ⟨i, hib, hai, -⟩
      exact Nat.lt_of_le_of_lt hai hib
  | cons r v ih =>
    have hle := h.1
    have hsum := h.2.sum_le
    rw [List.map_cons, List.sum_cons]
    by_cases hgap : a < r.1
    · refine ⟨fun _ => ⟨a, by omega, Nat.le_refl a, fun y hy hin => ?_⟩, fun _ => by omega⟩
      rcases List.mem_cons.mp hy with rfl | hy
      · omega
      · have hafter := (h.2.mem hy).1
        omega
    · have hrest := ih h.2
      constructor
      · intro hlt
        obtain ⟨i, hib, hri, hout⟩ := hrest.mp (by omega)
        refine ⟨i, hib, by omega, fun y hy hin => ?_⟩
        rcases List.mem_cons.mp hy with rfl | hy
        · omega
        · exact hout y hy hin
      · rintro ⟨i, hib, hai, hout⟩
        have hri : r.1 + r.2 ≤ i := by
          by_contra hn
          exact hout r List.mem_cons_self ⟨by omega, by omega⟩
        have hlt := hrest.mpr ⟨i, hib, hri, fun y hy => hout y (List.mem_cons_of_mem _ hy)⟩
        omega

theorem InOrder.filter_ge (h : InOrder a v b) (ht : t ≤ b) :
    InOrder t (v.filter fun r => t ≤ r.1) b := by
  induction v generalizing a t with
  | nil => exact ht
  | cons r v ih =>
    by_cases hr : t ≤ r.1
    · have hall : v.filter (fun y => t ≤ y.1) = v.filter (fun y => r.1 + r.2 ≤ y.1) := by
        refine List.filter_congr fun y hy => ?_
        have hafter := (h.2.mem hy).1
        simp only [decide_eq_decide]
        omega
      have hsum := h.2.sum_le
      rw [List.filter_cons_of_pos (by simpa using hr), hall]
      exact ⟨hr, ih h.2 (by omega)⟩
    · rw [List.filter_cons_of_neg (by simpa using hr)]
      exact ih h.2 ht

/-- **An offset stays before another** when what is removed before it is taken off the one, and all that
is removed off the other, if and only if something between them is in no piece that starts there. -/
theorem InOrder.sub_lt_iff (h : InOrder 0 v b) (ht : t ≤ b) (hle : sumBefore v t ≤ t) :
    t - sumBefore v t < b - (v.map Prod.snd).sum ↔
      ∃ i < b, t ≤ i ∧ ∀ r ∈ v, t ≤ r.1 → ¬ (r.1 ≤ i ∧ i < r.1 + r.2) := by
  have hall := h.sum_le
  have hadd := sumBefore_add_sumFrom v t
  have hfrom := (h.filter_ge ht).sum_lt_iff
  have hsum : t + sumFrom v t < b ↔ t - sumBefore v t < b - (v.map Prod.snd).sum := by omega
  rw [← hsum]
  refine hfrom.trans (exists_congr fun i => and_congr_right fun _ => and_congr_right fun _ => ?_)
  simp only [List.mem_filter, decide_eq_true_eq, and_imp]

end DnsMultiZone.Lib.Relocate
