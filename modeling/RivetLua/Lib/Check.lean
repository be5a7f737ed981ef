import Mathlib.Tactic.Basic

namespace Check

/-!
# Checks: programs that only accept or stop with an error

A validator is a sequence of checks in `Except ε`.  Each rule below says what it means that one
construct accepts, so that "the validator accepts" is taken apart check by check.
-/

variable {ε α β : Type}

/-- `if c { return Err(e) }`. -/
def reject (c : Prop) [Decidable c] (e : ε) : Except ε Unit :=
  if c then .error e else .ok ()

/-- `value.ok_or(e)`. -/
def some? (value : Option α) (e : ε) : Except ε α :=
  match value with
  | some a => .ok a
  | none => .error e

/-- Run a check on every element, in order. -/
def each (check : α → Except ε Unit) : List α → Except ε Unit
  | [] => .ok ()
  | a :: as => do
    check a
    each check as

theorem bind_eq_ok {x : Except ε α} {f : α → Except ε β} {b : β} :
    (x >>= f) = .ok b ↔ ∃ a, x = .ok a ∧ f a = .ok b := by
  show Except.bind x f = .ok b ↔ _
  rcases x with _ | _ <;> simp [Except.bind]

@[simp] theorem ok_bind {a : α} {f : α → Except ε β} : (Except.ok a >>= f) = f a := rfl

@[simp] theorem error_bind {e : ε} {f : α → Except ε β} :
    ((Except.error e : Except ε α) >>= f) = .error e := rfl

/-- Two continuations may differ where they are not run. -/
theorem bind_congr_of_ok {x : Except ε α} {f g : α → Except ε β} (h : ∀ a, x = .ok a → f a = g a) :
    (x >>= f) = (x >>= g) := by
  cases x with
  | error e => rfl
  | ok a => exact h a rfl

/-- The form a sequence of checks takes: the result of a check says nothing. -/
theorem then_eq_ok {x : Except ε Unit} {y : Except ε β} {b : β} :
    (x >>= fun _ => y) = .ok b ↔ x = .ok () ∧ y = .ok b := by
  rw [bind_eq_ok]
  constructor
  · rintro ⟨_, hx, hy⟩
    exact ⟨hx, hy⟩
  · rintro ⟨hx, hy⟩
    exact ⟨(), hx, hy⟩

@[simp] theorem reject_eq_ok {c : Prop} [Decidable c] {e : ε} {u : Unit} :
    reject c e = .ok u ↔ ¬ c := by
  unfold reject
  split <;> simp_all

/-- A check that stops decides a sequence. -/
theorem reject_bind_of {c : Prop} [Decidable c] {e : ε} {k : Unit → Except ε β} (h : c) :
    (reject c e >>= k) = .error e := by
  rw [reject, if_pos h, error_bind]

/-- A check that accepts leaves the rest of a sequence. -/
theorem reject_bind_of_not {c : Prop} [Decidable c] {e : ε} {k : Unit → Except ε β}
    (h : ¬ c) : (reject c e >>= k) = k () := by
  rw [reject, if_neg h, ok_bind]

@[simp] theorem some?_eq_ok {value : Option α} {e : ε} {a : α} :
    some? value e = .ok a ↔ value = some a := by
  cases value <;> simp [some?]

theorem each_eq_ok {check : α → Except ε Unit} {as : List α} {u : Unit} :
    each check as = .ok u ↔ ∀ a ∈ as, check a = .ok () := by
  induction as with
  | nil => simp [each]
  | cons a as ih => simp [each, then_eq_ok, ih]

/-! ### Errors -/

/-- The errors that a computation can end with satisfy `P`. -/
def Errors (P : ε → Prop) (x : Except ε α) : Prop := ∀ e, x = .error e → P e

namespace Errors

variable {P : ε → Prop} {x : Except ε α}

theorem ok (a : α) : Errors P (.ok a : Except ε α) := by
  intro e he
  cases he

theorem error {e : ε} (h : P e) : Errors P (.error e : Except ε α) := by
  intro e' he
  cases he
  exact h

theorem bind {k : α → Except ε β} (hx : Errors P x) (hk : ∀ a, x = .ok a → Errors P (k a)) :
    Errors P (x >>= k) := by
  intro e he
  cases hrun : x with
  | error e' =>
    rw [hrun] at he
    cases he
    exact hx e hrun
  | ok a =>
    rw [hrun] at he
    exact hk a hrun e he

theorem reject {c : Prop} [Decidable c] {e : ε} (h : c → P e) :
    Errors P (Check.reject c e) := by
  unfold Check.reject
  split
  · next hc => exact .error (h hc)
  · exact .ok ()

theorem some? {value : Option α} {e : ε} (h : P e) : Errors P (Check.some? value e) := by
  cases value with
  | none => exact .error h
  | some a => exact .ok a

theorem mono {Q : ε → Prop} (h : Errors P x) (hPQ : ∀ e, P e → Q e) : Errors Q x :=
  fun e he => hPQ e (h e he)

end Errors

end Check
