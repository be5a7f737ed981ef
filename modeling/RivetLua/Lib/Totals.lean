import Mathlib.Algebra.Ring.Nat
import Mathlib.Data.List.Perm.Basic
import Mathlib.Algebra.BigOperators.Group.List.Basic

namespace Totals

/-!
# Totals over the members of a list

A quantity that every member of a list contributes to.  Taking a member out and replacing one
change the total by what that member contributes, so that a claim about a list of owners becomes
linear arithmetic.
-/

variable {α β : Type}

/-- The sum of what the members of a list contribute. -/
def total (μ : α → Nat) (l : List α) : Nat := (l.map μ).sum

variable {μ : α → Nat}

@[simp] theorem total_nil : total μ [] = 0 := rfl

@[simp] theorem total_cons (a : α) (l : List α) : total μ (a :: l) = μ a + total μ l := by
  simp [total]

@[simp] theorem total_append (l l' : List α) : total μ (l ++ l') = total μ l + total μ l' := by
  simp [total]

theorem total_perm {l l' : List α} (h : l.Perm l') : total μ l = total μ l' :=
  (h.map μ).sum_eq

/-- A member that is taken out. -/
theorem total_eraseIdx {l : List α} {i : Nat} {a : α} (h : l[i]? = some a) :
    total μ l = total μ (l.eraseIdx i) + μ a := by
  obtain ⟨hi, rfl⟩ := List.getElem?_eq_some_iff.mp h
  have hperm := List.getElem_cons_eraseIdx_perm hi
  rw [← total_perm hperm, total_cons, Nat.add_comm]

/-- A member that is replaced. -/
theorem total_set {l : List α} {i : Nat} {a : α} (h : l[i]? = some a) (b : α) :
    total μ (l.set i b) + μ a = total μ l + μ b := by
  obtain ⟨hi, rfl⟩ := List.getElem?_eq_some_iff.mp h
  have hset := List.set_perm_cons_eraseIdx hi b
  rw [total_perm hset, total_eraseIdx h, total_cons]
  omega

/-- A total of what has two parts. -/
theorem total_add {ν ξ : α → Nat} (h : ∀ a, μ a = ν a + ξ a) (l : List α) :
    total μ l = total ν l + total ξ l := by
  induction l with
  | nil => rfl
  | cons a l ih =>
    simp only [total_cons, ih, h a]
    omega

/-- A member contributes no more than all of them. -/
theorem le_total {l : List α} {a : α} (h : a ∈ l) : μ a ≤ total μ l := by
  obtain ⟨i, hi⟩ := List.mem_iff_getElem?.mp h
  rw [total_eraseIdx hi]
  omega

end Totals
