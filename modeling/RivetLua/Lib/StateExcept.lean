import Mathlib.Tactic.Basic

namespace StateExcept

/-!
# Stateful programs that drop their state on an error

A program in `StateT σ (Except ε)` ends with a result and a state, or with an error.

* `bind_eq_ok`, … — what it means that a construct ends with a result, so that "the program ends
  with a result" is taken apart step by step;
* `Ensures` — pre- and postconditions of the runs that end with a result;
* `Leaves` — a view of the state that a program does not change.
-/

variable {σ ε α β τ : Type}

/-! ### Ending with a result -/

theorem bind_eq_ok {m : StateT σ (Except ε) α} {f : α → StateT σ (Except ε) β} {s t : σ} {b : β} :
    (m >>= f) s = .ok (b, t) ↔ ∃ a s', m s = .ok (a, s') ∧ f a s' = .ok (b, t) := by
  show Except.bind (m s) (fun p => f p.1 p.2) = .ok (b, t) ↔ _
  rcases m s with e | ⟨a, s'⟩
  · simp [Except.bind]
  · constructor
    · intro h
      exact ⟨a, s', rfl, h⟩
    · rintro ⟨_, _, ⟨⟩, h⟩
      exact h

theorem pure_eq_ok {a b : α} {s t : σ} :
    (pure a : StateT σ (Except ε) α) s = .ok (b, t) ↔ a = b ∧ s = t := by
  show Except.ok (a, s) = .ok (b, t) ↔ _
  simp

theorem get_eq_ok {s t u : σ} :
    (get : StateT σ (Except ε) σ) s = .ok (t, u) ↔ s = t ∧ s = u := by
  show Except.ok (s, s) = .ok (t, u) ↔ _
  simp

theorem modify_eq_ok {f : σ → σ} {s t : σ} {u : PUnit} :
    (modify f : StateT σ (Except ε) PUnit) s = .ok (u, t) ↔ f s = t := by
  show Except.ok (PUnit.unit, f s) = .ok (u, t) ↔ _
  simp

/-- A program that reads the state first. -/
theorem get_bind_eq_ok {f : σ → StateT σ (Except ε) β} {s t : σ} {b : β} :
    (get >>= f) s = .ok (b, t) ↔ f s s = .ok (b, t) := Iff.rfl

/-- A program that updates the state first. -/
theorem modify_bind_eq_ok {g : σ → σ} {f : PUnit → StateT σ (Except ε) β} {s t : σ} {b : β} :
    (modify g >>= f) s = .ok (b, t) ↔ f ⟨⟩ (g s) = .ok (b, t) := Iff.rfl

/-! ### Pre- and postconditions -/

/-- From a state with `P`, a run that ends with a result ends in `Q`. -/
def Ensures (P : σ → Prop) (m : StateT σ (Except ε) α) (Q : α → σ → Prop) : Prop :=
  ∀ s a s', P s → m s = .ok (a, s') → Q a s'

theorem Ensures.pure {P : σ → Prop} {Q : α → σ → Prop} {a : α} (h : ∀ s, P s → Q a s) :
    Ensures P (pure a : StateT σ (Except ε) α) Q := by
  intro s a' s' hP hrun
  obtain ⟨rfl, rfl⟩ := pure_eq_ok.mp hrun
  exact h s hP

theorem Ensures.bind {P : σ → Prop} {m : StateT σ (Except ε) α} {Q : α → σ → Prop}
    {f : α → StateT σ (Except ε) β} {R : β → σ → Prop} (hm : Ensures P m Q)
    (hf : ∀ a, Ensures (Q a) (f a) R) : Ensures P (m >>= f) R := by
  intro s b t hP hrun
  obtain ⟨a, s', hma, hfa⟩ := bind_eq_ok.mp hrun
  exact hf a s' b t (hm s a s' hP hma) hfa

theorem Ensures.get {P : σ → Prop} {f : σ → StateT σ (Except ε) β} {R : β → σ → Prop}
    (h : ∀ s, Ensures (fun s' => P s' ∧ s' = s) (f s) R) :
    Ensures P (get >>= f) R :=
  fun s b t hP hrun => h s s b t ⟨hP, rfl⟩ hrun

theorem Ensures.modify {P : σ → Prop} {f : σ → σ} {Q : PUnit → σ → Prop}
    (h : ∀ s, P s → Q ⟨⟩ (f s)) : Ensures P (modify f : StateT σ (Except ε) PUnit) Q := by
  intro s u t hP hrun
  obtain rfl := modify_eq_ok.mp hrun
  exact h s hP

theorem Ensures.ite {P : σ → Prop} {c : Prop} [Decidable c] {m₁ m₂ : StateT σ (Except ε) α}
    {Q : α → σ → Prop} (h₁ : c → Ensures P m₁ Q) (h₂ : ¬ c → Ensures P m₂ Q) :
    Ensures P (if c then m₁ else m₂) Q := by
  split
  · next h => exact h₁ h
  · next h => exact h₂ h

theorem Ensures.weaken {P P' : σ → Prop} {m : StateT σ (Except ε) α} {Q Q' : α → σ → Prop}
    (h : Ensures P m Q) (hP : ∀ s, P' s → P s) (hQ : ∀ a s, Q a s → Q' a s) : Ensures P' m Q' :=
  fun s a s' hs hrun => hQ a s' (h s a s' (hP s hs) hrun)

/-! ### Views that a program leaves alone -/

/-- A run that ends with a result leaves a view of the state as it was. -/
def Leaves (view : σ → τ) (m : StateT σ (Except ε) α) : Prop :=
  ∀ s a s', m s = .ok (a, s') → view s' = view s

theorem Leaves.pure {view : σ → τ} {a : α} :
    Leaves view (pure a : StateT σ (Except ε) α) := by
  intro s a' s' hrun
  obtain ⟨-, rfl⟩ := pure_eq_ok.mp hrun
  rfl

theorem Leaves.bind {view : σ → τ} {m : StateT σ (Except ε) α} {f : α → StateT σ (Except ε) β}
    (hm : Leaves view m) (hf : ∀ a, Leaves view (f a)) : Leaves view (m >>= f) := by
  intro s b t hrun
  obtain ⟨a, s', hma, hfa⟩ := bind_eq_ok.mp hrun
  rw [hf a s' b t hfa, hm s a s' hma]

theorem Leaves.get {view : σ → τ} {f : σ → StateT σ (Except ε) β} (h : ∀ s, Leaves view (f s)) :
    Leaves view (get >>= f) :=
  fun s b t hrun => h s s b t hrun

theorem Leaves.modify {view : σ → τ} {f : σ → σ} (h : ∀ s, view (f s) = view s) :
    Leaves view (modify f : StateT σ (Except ε) PUnit) := by
  intro s u t hrun
  obtain rfl := modify_eq_ok.mp hrun
  exact h s

theorem Leaves.ite {view : σ → τ} {c : Prop} [Decidable c] {m₁ m₂ : StateT σ (Except ε) α}
    (h₁ : Leaves view m₁) (h₂ : Leaves view m₂) : Leaves view (if c then m₁ else m₂) := by
  split
  · exact h₁
  · exact h₂

theorem Leaves.forM {view : σ → τ} {f : α → StateT σ (Except ε) PUnit}
    (h : ∀ a, Leaves view (f a)) : ∀ l : List α, Leaves view (l.forM f)
  | [] => Leaves.pure
  | a :: l => by
    show Leaves view (f a >>= fun _ => l.forM f)
    exact (h a).bind fun _ => Leaves.forM h l

end StateExcept
