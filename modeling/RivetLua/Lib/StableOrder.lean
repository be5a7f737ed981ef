import Mathlib.GroupTheory.Perm.Basic
import Mathlib.Order.Defs.Unbundled
import Mathlib.Tactic.Tauto

namespace StableOrder

/-!
# Sorting by exchanging neighbours, stably

The arrays are functions on the integers; a permutation of the positions says where each element
comes from.  The elements up to `i` are being put in order, and the one at `j` is on its way down.

* `Before` — the order of the original positions: by the elements, then by the positions;
* `Rearranged`, `Sinking` — what the permutation does, and the invariant of an insertion;
* `Sinking.settle`, `Sinking.exchange` — the two steps of an insertion;
* `Sorted` — in order, equal elements as they were.
-/

variable {α : Type} {lt : α → α → Prop} {before after : Int → α} {n i j : Int}
  {π : Equiv.Perm Int}

/-- Of two original positions the first belongs in front. -/
def Before (lt : α → α → Prop) (before : Int → α) (p q : Int) : Prop :=
  lt (before p) (before q) ∨ (¬ lt (before q) (before p) ∧ p < q)

section Order

variable [IsStrictWeakOrder α lt]

theorem not_lt_trans {a b c : α} (hab : ¬ lt a b) (hbc : ¬ lt b c) : ¬ lt a c := by
  intro hac
  have hba : ¬ lt b a := fun h => hbc (IsTrans.trans _ _ _ h hac)
  have hcb : ¬ lt c b := fun h => hab (IsTrans.trans _ _ _ hac h)
  exact (IsStrictWeakOrder.incomp_trans a b c ⟨hab, hba⟩ ⟨hbc, hcb⟩).1 hac

theorem Before.trans {p q r : Int} (hpq : Before lt before p q) (hqr : Before lt before q r) :
    Before lt before p r := by
  rcases hpq with hpq | ⟨hqp, hlt⟩ <;> rcases hqr with hqr | ⟨hrq, hlt'⟩
  · exact .inl (IsTrans.trans _ _ _ hpq hqr)
  · refine .inl (Classical.byContradiction fun hpr => ?_)
    exact not_lt_trans hpr hrq hpq
  · refine .inl (Classical.byContradiction fun hpr => ?_)
    exact not_lt_trans hqp hpr hqr
  · exact .inr ⟨not_lt_trans hrq hqp, hlt.trans hlt'⟩

end Order

/-- `after` has the elements of `before`, in another order between `1` and `n`. -/
structure Rearranged (before after : Int → α) (n : Int) (π : Equiv.Perm Int) : Prop where
  outside : ∀ k, ¬ (1 ≤ k ∧ k ≤ n) → π k = k
  element : ∀ k, after k = before (π k)

theorem Rearranged.refl (before : Int → α) (n : Int) : Rearranged before before n 1 :=
  ⟨fun _ _ => rfl, fun _ => rfl⟩

/-- Two elements change places. -/
def exchanged (elements : Int → α) (j : Int) : Int → α :=
  Function.update (Function.update elements (j - 1) (elements j)) j (elements (j - 1))

theorem exchanged_apply (elements : Int → α) (j k : Int) :
    exchanged elements j k = elements (Equiv.swap (j - 1) j k) := by
  unfold exchanged
  by_cases hk : k = j
  · subst hk
    rw [Function.update_self, Equiv.swap_apply_right]
  rw [Function.update_of_ne hk]
  by_cases hk' : k = j - 1
  · subst hk'
    rw [Function.update_self, Equiv.swap_apply_left]
  · rw [Function.update_of_ne hk', Equiv.swap_apply_of_ne_of_ne hk' hk]

theorem Rearranged.exchange (h : Rearranged before after n π) (hj : 2 ≤ j) (hn : j ≤ n) :
    Rearranged before (exchanged after j) n (π * Equiv.swap (j - 1) j) where
  outside := by
    intro k hk
    rw [Equiv.Perm.mul_apply, Equiv.swap_apply_of_ne_of_ne (by omega) (by omega)]
    exact h.outside k hk
  element := by
    intro k
    rw [exchanged_apply, h.element, Equiv.Perm.mul_apply]

/-- The elements up to `i` are in order but for the one at `j`, which has been at `i` and has come
    past those between; behind `i` nothing has been touched. -/
structure Sinking (lt : α → α → Prop) (before : Int → α) (π : Equiv.Perm Int) (i j : Int) :
    Prop where
  untouched : ∀ k, i < k → π k = k
  sinking : π j = i
  others : ∀ k l, 1 ≤ k → k < l → l ≤ i → k ≠ j → l ≠ j → Before lt before (π k) (π l)
  passed : ∀ l, j < l → l ≤ i → Before lt before (π j) (π l)

/-- Nothing has been touched, and the second element is next. -/
theorem Sinking.start (before : Int → α) : Sinking lt before 1 2 2 where
  untouched := fun _ _ => rfl
  sinking := rfl
  others := by
    intro k l hk hlt hl hk' hl'
    omega
  passed := by
    intro l hlt hl
    omega

/-- The other elements up to `i` come from below. -/
theorem Sinking.lt_of_ne (h : Sinking lt before π i j) {k : Int} (hk : k ≤ i) (hne : k ≠ j) :
    π k < i := by
  have hle : π k ≤ i := by
    by_contra hgt
    have hfix : π (π k) = π k := h.untouched (π k) (not_le.mp hgt)
    have hsame : π k = k := π.injective hfix
    omega
  have hneq : π k ≠ i := by
    rw [← h.sinking]
    exact fun heq => hne (π.injective heq)
  omega

/-- All elements up to `i` are in order. -/
def InOrder (lt : α → α → Prop) (before : Int → α) (π : Equiv.Perm Int) (i : Int) : Prop :=
  ∀ k l, 1 ≤ k → k < l → l ≤ i → Before lt before (π k) (π l)

/-- The next element begins to sink. -/
theorem Sinking.next (horder : InOrder lt before π i) (huntouched : ∀ k, i < k → π k = k) :
    Sinking lt before π (i + 1) (i + 1) where
  untouched := fun k hk => huntouched k (by omega)
  sinking := huntouched (i + 1) (by omega)
  others := fun k l hk hlt hl _ hl' => horder k l hk hlt (by omega)
  passed := by
    intro l hlt hl
    omega

/-- Below the first element there is nothing. -/
theorem Sinking.bottom (h : Sinking lt before π i 1) : InOrder lt before π i := by
  intro k l hk hlt hl
  by_cases hk' : k = 1
  · subst hk'
    exact h.passed l hlt hl
  · exact h.others k l hk hlt hl hk' (by omega)

/-- The element below is greater: they change places. -/
theorem Sinking.exchange (hafter : Rearranged before after n π)
    (h : Sinking lt before π i j) (hj : 2 ≤ j) (hi : j ≤ i) (hless : lt (after j) (after (j - 1))) :
    Sinking lt before (π * Equiv.swap (j - 1) j) i (j - 1) := by
  have hold : ∀ k, k ≠ j - 1 → k ≠ j → (π * Equiv.swap (j - 1) j) k = π k := by
    intro k hk hk'
    rw [Equiv.Perm.mul_apply, Equiv.swap_apply_of_ne_of_ne hk hk']
  have hup : (π * Equiv.swap (j - 1) j) j = π (j - 1) := by
    rw [Equiv.Perm.mul_apply, Equiv.swap_apply_right]
  have hdown : (π * Equiv.swap (j - 1) j) (j - 1) = π j := by
    rw [Equiv.Perm.mul_apply, Equiv.swap_apply_left]
  refine ⟨?_, ?_, ?_, ?_⟩
  · intro k hk
    rw [hold k (by omega) (by omega)]
    exact h.untouched k hk
  · rw [hdown]
    exact h.sinking
  · intro k l hk hlt hl hk' hl'
    by_cases hkj : k = j
    · rw [hkj, hup, hold l hl' (by omega)]
      exact h.others (j - 1) l (by omega) (by omega) hl (by omega) (by omega)
    by_cases hlj : l = j
    · rw [hlj, hup, hold k hk' hkj]
      exact h.others k (j - 1) hk (by omega) (by omega) hkj (by omega)
    · rw [hold k hk' hkj, hold l hl' hlj]
      exact h.others k l hk hlt hl hkj hlj
  · intro l hlt hl
    rw [hdown]
    by_cases hlj : l = j
    · rw [hlj, hup]
      rw [hafter.element, hafter.element] at hless
      exact .inl hless
    · rw [hold l (by omega) hlj]
      exact h.passed l (by omega) hl

/-- The element below is not greater: the insertion is done. -/
theorem Sinking.settle [IsStrictWeakOrder α lt] (hafter : Rearranged before after n π)
    (h : Sinking lt before π i j) (hj : j ≤ i) (hnot : ¬ lt (after j) (after (j - 1))) : InOrder lt before π i := by
  have hbelow : Before lt before (π (j - 1)) (π j) := by
    refine .inr ⟨?_, ?_⟩
    · rwa [hafter.element, hafter.element] at hnot
    · rw [h.sinking]
      exact h.lt_of_ne (by omega) (by omega)
  have hto : ∀ k, 1 ≤ k → k < j → Before lt before (π k) (π j) := by
    intro k hk hkj
    by_cases hk' : k = j - 1
    · rw [hk']
      exact hbelow
    · exact (h.others k (j - 1) hk (by omega) (by omega) (by omega) (by omega)).trans hbelow
  intro k l hk hlt hl
  by_cases hkj : k = j
  · rw [hkj]
    exact h.passed l (by omega) hl
  by_cases hlj : l = j
  · rw [hlj]
    exact hto k hk (by omega)
  · exact h.others k l hk hlt hl hkj hlj

/-- Between `1` and `n` no element is less than an earlier one, and of two elements neither of
    which is less the first has been first before. -/
structure Sorted (lt : α → α → Prop) (after : Int → α) (n : Int) (π : Equiv.Perm Int) : Prop where
  ordered : ∀ k l, 1 ≤ k → k < l → l ≤ n → ¬ lt (after l) (after k)
  stable : ∀ k l, 1 ≤ k → k < l → l ≤ n → ¬ lt (after k) (after l) → π k < π l

theorem InOrder.sorted [IsStrictWeakOrder α lt] (h : InOrder lt before π n)
    (hafter : Rearranged before after n π) : Sorted lt after n π where
  ordered := by
    intro k l hk hlt hl
    rw [hafter.element, hafter.element]
    rcases h k l hk hlt hl with hless | ⟨hnot, -⟩
    · exact asymm hless
    · exact hnot
  stable := by
    intro k l hk hlt hl hnot
    rw [hafter.element, hafter.element] at hnot
    rcases h k l hk hlt hl with hless | ⟨-, hlt⟩
    · exact absurd hless hnot
    · exact hlt

end StableOrder
