import Mathlib.Algebra.Order.BigOperators.Group.List
import Mathlib.Algebra.Ring.Nat
import RivetLua.Lib.StateExcept

namespace StateExcept

/-!
# Runs with a grade

How far a run moves the state is measured by a relation with a grade: the grades of two runs in a
row add up.  The two uses are a counter that goes up by at most, and by at least, the grade.

* `Grading` — relations whose grades add up;
* `Moves` — a program whose successful runs have a grade, with one rule for each construct;
* `atMost`, `atLeast` — the bounds of a counter.
-/

variable {σ ε α β : Type}

/-- The grades of two steps in a row add up. -/
class Grading (R : Nat → σ → σ → Prop) : Prop where
  refl : ∀ s, R 0 s s
  trans : ∀ {m n s t u}, R m s t → R n t u → R (m + n) s u

/-- A counter goes up by at most the grade. -/
def atMost (count : σ → Nat) (n : Nat) (s t : σ) : Prop := count t ≤ count s + n

/-- A counter goes up by at least the grade. -/
def atLeast (count : σ → Nat) (n : Nat) (s t : σ) : Prop := count s + n ≤ count t

instance (count : σ → Nat) : Grading (atMost count) where
  refl s := Nat.le_refl (count s)
  trans := by
    intro m n s t u hst htu
    unfold atMost at *
    omega

instance (count : σ → Nat) : Grading (atLeast count) where
  refl s := Nat.le_refl (count s)
  trans := by
    intro m n s t u hst htu
    unfold atLeast at *
    omega

/-- A run that ends with a result moves the state by the grade `n`. -/
def Moves (R : Nat → σ → σ → Prop) (n : Nat) (m : StateT σ (Except ε) α) : Prop :=
  ∀ s a s', m s = .ok (a, s') → R n s s'

namespace Moves

variable {R : Nat → σ → σ → Prop} {m n : Nat}

theorem mono {x : StateT σ (Except ε) α} (h : Moves R n x) (hR : ∀ s t, R n s t → R m s t) :
    Moves R m x :=
  fun s a s' hrun => hR s s' (h s a s' hrun)

theorem pure [Grading R] (a : α) : Moves R 0 (pure a : StateT σ (Except ε) α) := by
  intro s b s' hrun
  obtain ⟨-, rfl⟩ := pure_eq_ok.mp hrun
  exact Grading.refl s

theorem bind [Grading R] {x : StateT σ (Except ε) α} {f : α → StateT σ (Except ε) β}
    (hx : Moves R m x) (hf : ∀ a, Moves R n (f a)) : Moves R (m + n) (x >>= f) := by
  intro s b t hrun
  obtain ⟨a, s', ha, hb⟩ := bind_eq_ok.mp hrun
  exact Grading.trans (hx s a s' ha) (hf a s' b t hb)

theorem get {f : σ → StateT σ (Except ε) β} (h : ∀ s, Moves R n (f s)) :
    Moves R n (get >>= f) :=
  fun s b t hrun => h s s b t hrun

theorem throw (e : ε) : Moves R n (throw e : StateT σ (Except ε) α) := by
  intro s a s' hrun
  cases hrun

theorem ite {c : Prop} [Decidable c] {x y : StateT σ (Except ε) α} (hx : Moves R n x)
    (hy : Moves R n y) : Moves R n (if c then x else y) := by
  split
  · exact hx
  · exact hy

/-- A loop moves the state by what its rounds move it. -/
theorem forM [Grading R] {f : α → StateT σ (Except ε) PUnit} (grade : α → Nat)
    {items : List α} (h : ∀ a ∈ items, Moves R (grade a) (f a)) :
    Moves R (items.map grade).sum (items.forM f) := by
  induction items with
  | nil => exact pure _
  | cons a items ih =>
    have hfirst := h a List.mem_cons_self
    have hrest := ih fun b hb => h b (List.mem_cons_of_mem a hb)
    rw [List.map_cons, List.sum_cons]
    exact hfirst.bind fun _ => hrest

theorem weaken {count : σ → Nat} {x : StateT σ (Except ε) α} (h : Moves (atMost count) m x)
    (hmn : m ≤ n) : Moves (atMost count) n x :=
  h.mono fun _ _ hle => Nat.le_trans hle (Nat.add_le_add_left hmn _)

theorem lower {count : σ → Nat} {x : StateT σ (Except ε) α} (h : Moves (atLeast count) n x)
    (hmn : m ≤ n) : Moves (atLeast count) m x :=
  h.mono fun _ _ hle => Nat.le_trans (Nat.add_le_add_left hmn _) hle

end Moves

end StateExcept
