import Mathlib.Tactic.Basic

namespace Machine

/-!
# Machines that stop to ask

A resumable machine runs until it needs something from outside, asks for it, and goes on when it
is handed the answer.

* `Step` — what one step does: go on, ask, or end;
* `Dialogue` — questions and what follows each answer; `Plays` says which dialogue a machine has;
* `Steps` — runs of a relation with their length, `Steps.invariant` and `Steps.length_le`.
-/

/-- One step of a machine with states `σ`, questions `Q`, answers `A` and results `R`.  An answer
    that has not been taken yet is handed on. -/
inductive Step (σ Q A R : Type) where
  | next (state : σ) (answer : Option A)
  | ask (state : σ) (question : Q)
  | done (result : R)

/-! ### Dialogues -/

/-- A conversation: a question and what follows each answer, or the result. -/
inductive Dialogue (Q A R : Type) where
  | done (result : R)
  | ask (question : Q) (next : A → Dialogue Q A R)

namespace Dialogue

variable {Q A R S : Type}

/-- The conversation with someone who answers from a store. -/
def run (handle : Q → S → A × S) : Dialogue Q A R → S → R × S
  | done result, store => (result, store)
  | ask q next, store => (next (handle q store).1).run handle (handle q store).2

@[simp] theorem run_done (handle : Q → S → A × S) (result : R) (store : S) :
    (done result : Dialogue Q A R).run handle store = (result, store) := rfl

@[simp] theorem run_ask (handle : Q → S → A × S) (q : Q) (next : A → Dialogue Q A R) (store : S) :
    (ask q next).run handle store = (next (handle q store).1).run handle (handle q store).2 := rfl

end Dialogue

/-! ### The dialogue of a machine -/

section Plays

variable {σ Q A R : Type} {step : σ → Option A → Step σ Q A R}

/-- From a state, with an answer in hand or without, the machine has the dialogue. -/
inductive Plays (step : σ → Option A → Step σ Q A R) : σ → Option A → Dialogue Q A R → Prop
  | done {s : σ} {a : Option A} {result : R} (h : step s a = .done result) :
      Plays step s a (.done result)
  | next {s s' : σ} {a a' : Option A} {d : Dialogue Q A R} (h : step s a = .next s' a')
      (rest : Plays step s' a' d) : Plays step s a d
  | ask {s s' : σ} {a : Option A} {q : Q} {next : A → Dialogue Q A R} (h : step s a = .ask s' q)
      (rest : ∀ answer, Plays step s' (some answer) (next answer)) :
      Plays step s a (.ask q next)

end Plays

/-! ### Runs -/

section Steps

variable {α : Type} {Moves : α → α → Prop}

/-- Runs of a relation, by their length. -/
inductive Steps (Moves : α → α → Prop) (a : α) : Nat → α → Prop
  | refl : Steps Moves a 0 a
  | tail {n : Nat} {b c : α} (run : Steps Moves a n b) (last : Moves b c) : Steps Moves a (n + 1) c

/-- What one step preserves a run preserves. -/
theorem Steps.invariant {Inv : α → Prop} (hstep : ∀ a b, Inv a → Moves a b → Inv b) {a b : α}
    {n : Nat} (ha : Inv a) (h : Steps Moves a n b) : Inv b := by
  induction h with
  | refl => exact ha
  | tail _ last ih => exact hstep _ _ ih last

/-- A measure that every step makes smaller bounds the length of a run. -/
theorem Steps.length_le {Inv : α → Prop} (hstep : ∀ a b, Inv a → Moves a b → Inv b)
    {measure : α → Nat} (hless : ∀ a b, Inv a → Moves a b → measure b < measure a) {a b : α}
    {n : Nat} (ha : Inv a) (h : Steps Moves a n b) : n + measure b ≤ measure a := by
  induction h with
  | refl => omega
  | tail run last ih =>
    have hlast := hless _ _ (run.invariant hstep ha) last
    omega

end Steps

end Machine
