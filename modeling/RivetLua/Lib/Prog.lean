import Mathlib.Tactic.Basic

namespace StateProg

/-!
# Programs with a state that survives an error, and triples for them

`Prog σ ε α` is a program over a mutable state `σ` that may stop early with an error `ε`.
Unlike a state monad over `Except`, the state reached so far is kept when the program
stops: this is what a method with a mutable receiver and a fallible result does.

* `Triple P m Q E` — from a state with `P` the program `m` ends either normally, with
  `Q result state`, or with an error, with `E error state`;
* `Triple.bind`, `Triple.pure`, `Triple.conseq`, … — the structural rules;
* `Triple.forM` — the loop rule over a list, with an invariant indexed by what is left;
* `Keeps I m` — `m` preserves `I` whichever way it ends.
-/

/-- A stateful program that may stop with an error, keeping the state it reached. -/
def Prog (σ ε α : Type) : Type := σ → Except ε α × σ

namespace Prog

variable {σ ε α β : Type}

/-- Return a value. -/
protected def pure (a : α) : Prog σ ε α := fun s => (.ok a, s)

/-- Run `m`, then `f` on its result unless `m` stopped. -/
protected def bind (m : Prog σ ε α) (f : α → Prog σ ε β) : Prog σ ε β := fun s =>
  match m s with
  | (.ok a, s') => f a s'
  | (.error e, s') => (.error e, s')

instance : Monad (Prog σ ε) where
  pure := Prog.pure
  bind := Prog.bind

/-- Stop with an error. -/
def fail (e : ε) : Prog σ ε α := fun s => (.error e, s)

/-- Read the state. -/
def get : Prog σ ε σ := fun s => (.ok s, s)

/-- Update the state. -/
def modify (f : σ → σ) : Prog σ ε Unit := fun s => (.ok (), f s)

/-- Read a part of the state. -/
def gets (f : σ → α) : Prog σ ε α := fun s => (.ok (f s), s)

/-- Turn an optional value into a result. -/
def ofOption (e : ε) : Option α → Prog σ ε α
  | some a => Prog.pure a
  | none => fail e

/-- Turn an `Except` into a program. -/
def ofExcept : Except ε α → Prog σ ε α
  | .ok a => Prog.pure a
  | .error e => fail e

/-- Run `m`; on an error run the clean-up `h` and then stop with the same error. -/
def onError (m : Prog σ ε α) (h : Prog σ ε Unit) : Prog σ ε α := fun s =>
  match m s with
  | (.ok a, s') => (.ok a, s')
  | (.error e, s') =>
    match h s' with
    | (.ok _, s'') => (.error e, s'')
    | (.error e', s'') => (.error e', s'')

/-- Run `m` under a condition only. -/
def when (c : Prop) [Decidable c] (m : Prog σ ε Unit) : Prog σ ε Unit :=
  if c then m else Prog.pure ()

/-- Run a program on a part of the state. -/
def focus {τ : Type} (view : σ → τ) (update : σ → τ → σ) (m : Prog τ ε α) : Prog σ ε α := fun s =>
  match m (view s) with
  | (r, t) => (r, update s t)

@[simp] theorem pure_apply (a : α) (s : σ) : (pure a : Prog σ ε α) s = (.ok a, s) := rfl

theorem bind_apply (m : Prog σ ε α) (f : α → Prog σ ε β) (s : σ) :
    (m >>= f) s = match m s with
      | (.ok a, s') => f a s'
      | (.error e, s') => (.error e, s') := rfl

@[simp] theorem fail_apply (e : ε) (s : σ) : (fail e : Prog σ ε α) s = (.error e, s) := rfl

@[simp] theorem get_apply (s : σ) : (get : Prog σ ε σ) s = (.ok s, s) := rfl

@[simp] theorem gets_apply (f : σ → α) (s : σ) : (gets f : Prog σ ε α) s = (.ok (f s), s) := rfl

@[simp] theorem modify_apply (f : σ → σ) (s : σ) :
    (modify f : Prog σ ε Unit) s = (.ok (), f s) := rfl

theorem focus_apply {τ : Type} {view : σ → τ} {update : σ → τ → σ} {m : Prog τ ε α} {s : σ}
    {r : Except ε α} {t : τ} (h : m (view s) = (r, t)) :
    focus view update m s = (r, update s t) := by
  rw [focus, h]

theorem onError_apply_ok {m : Prog σ ε α} {h : Prog σ ε Unit} {s s' : σ} {a : α}
    (hm : m s = (.ok a, s')) : onError m h s = (.ok a, s') := by
  rw [onError, hm]

theorem onError_apply_error {m : Prog σ ε α} {h : Prog σ ε Unit} {s s' s'' : σ} {e : ε} {u : Unit}
    (hm : m s = (.error e, s')) (hh : h s' = (.ok u, s'')) :
    onError m h s = (.error e, s'') := by
  rw [onError, hm]
  simp only [hh]

/-- A clean-up that does nothing. -/
theorem onError_pure (m : Prog σ ε α) : onError m (pure ()) = m := by
  funext s
  unfold onError
  rcases m s with ⟨_ | _, _⟩ <;> rfl

theorem bind_apply_ok {m : Prog σ ε α} {f : α → Prog σ ε β} {s s' : σ} {a : α}
    (h : m s = (.ok a, s')) : (m >>= f) s = f a s' := by
  rw [bind_apply, h]

theorem bind_apply_error {m : Prog σ ε α} {f : α → Prog σ ε β} {s s' : σ} {e : ε}
    (h : m s = (.error e, s')) : (m >>= f) s = (.error e, s') := by
  rw [bind_apply, h]

/-- A sequence that ends normally ran both parts. -/
theorem bind_eq_ok {m : Prog σ ε α} {f : α → Prog σ ε β} {s t : σ} {b : β}
    (h : (m >>= f) s = (.ok b, t)) : ∃ a s', m s = (.ok a, s') ∧ f a s' = (.ok b, t) := by
  rw [bind_apply] at h
  rcases hm : m s with ⟨r, s'⟩
  rw [hm] at h
  cases r with
  | ok a => exact ⟨a, s', rfl, h⟩
  | error e => exact absurd h (by simp)

/-- A program with a clean-up that ends normally has not needed it. -/
theorem onError_eq_ok {m : Prog σ ε α} {h : Prog σ ε Unit} {s t : σ} {a : α}
    (hrun : onError m h s = (.ok a, t)) : m s = (.ok a, t) := by
  rw [onError] at hrun
  rcases hm : m s with ⟨_ | a', s'⟩
  · rw [hm] at hrun
    simp only at hrun
    split at hrun <;> simp at hrun
  · rw [hm] at hrun
    exact hrun

theorem ofExcept_eq_ok {x : Except ε α} {s t : σ} {a : α}
    (h : (ofExcept x : Prog σ ε α) s = (.ok a, t)) : x = .ok a ∧ s = t := by
  cases x with
  | error e => cases h
  | ok b =>
    cases h
    exact ⟨rfl, rfl⟩

end Prog

/-! ### Triples -/

variable {σ ε α β : Type}

/-- From `P`, the program ends normally with `Q` or stops with `E`. -/
def Triple (P : σ → Prop) (m : Prog σ ε α) (Q : α → σ → Prop) (E : ε → σ → Prop) : Prop :=
  ∀ s, P s → match m s with
    | (.ok a, s') => Q a s'
    | (.error e, s') => E e s'

namespace Triple

variable {P P' : σ → Prop} {Q Q' : α → σ → Prop} {E E' : ε → σ → Prop} {m : Prog σ ε α}

/-- Strengthen the precondition, weaken both postconditions. -/
theorem conseq (h : Triple P m Q E) (hp : ∀ s, P' s → P s) (hq : ∀ a s, Q a s → Q' a s)
    (he : ∀ e s, E e s → E' e s) : Triple P' m Q' E' := by
  intro s hs
  have := h s (hp s hs)
  rcases hm : m s with ⟨r, s'⟩
  rw [hm] at this
  cases r with
  | ok a => exact hq _ _ this
  | error e => exact he _ _ this

/-- What a normal end gives. -/
theorem ok (h : Triple P m Q E) {s s' : σ} {a : α} (hs : P s) (hm : m s = (.ok a, s')) :
    Q a s' := by
  have := h s hs
  rw [hm] at this
  exact this

/-- What a stop gives. -/
theorem error (h : Triple P m Q E) {s s' : σ} {e : ε} (hs : P s) (hm : m s = (.error e, s')) :
    E e s' := by
  have := h s hs
  rw [hm] at this
  exact this

/-- The state reached, when both ends promise the same of it. -/
theorem apply {I : σ → Prop} (h : Triple P m (fun _ s => I s) (fun _ s => I s)) {s : σ} (hs : P s) :
    I (m s).2 := by
  have := h s hs
  rcases hm : m s with ⟨r, s'⟩
  rw [hm] at this
  cases r <;> exact this

theorem pure (a : α) : Triple (Q a) (Pure.pure a : Prog σ ε α) Q E := fun _ h => h

/-- Returning a value from a weaker precondition. -/
theorem return_of {a : α} (h : ∀ s, P s → Q a s) : Triple P (Pure.pure a : Prog σ ε α) Q E := h

/-- Every program ends somehow. -/
theorem top : Triple P m (fun _ _ => True) (fun _ _ => True) := by
  intro s _
  split <;> trivial

theorem fail (e : ε) : Triple (E e) (Prog.fail e : Prog σ ε α) Q E := fun _ h => h

theorem get {Q : σ → σ → Prop} : Triple (fun s => Q s s) (Prog.get : Prog σ ε σ) Q E :=
  fun _ h => h

theorem gets (f : σ → α) : Triple (fun s => Q (f s) s) (Prog.gets f : Prog σ ε α) Q E :=
  fun _ h => h

theorem modify {Q : Unit → σ → Prop} (f : σ → σ) :
    Triple (fun s => Q () (f s)) (Prog.modify f : Prog σ ε Unit) Q E := fun _ h => h

/-- Sequencing: the first part's result feeds the second. -/
theorem bind {f : α → Prog σ ε β} {R : β → σ → Prop} (hm : Triple P m Q E)
    (hf : ∀ a, Triple (Q a) (f a) R E) : Triple P (m >>= f) R E := by
  intro s hs
  have h := hm s hs
  rw [Prog.bind_apply]
  rcases hms : m s with ⟨r, s'⟩
  rw [hms] at h
  cases r with
  | ok a => exact hf a s' h
  | error e => exact h

/-- A condition decides which branch runs. -/
theorem ite {c : Prop} [Decidable c] {m₁ m₂ : Prog σ ε α} (h₁ : c → Triple P m₁ Q E)
    (h₂ : ¬ c → Triple P m₂ Q E) : Triple P (if c then m₁ else m₂) Q E := by
  by_cases hc : c
  · rw [if_pos hc]; exact h₁ hc
  · rw [if_neg hc]; exact h₂ hc

/-- Move a pure part of the precondition into the context. -/
theorem of_pure {φ : Prop} (h : φ → Triple P m Q E) : Triple (fun s => φ ∧ P s) m Q E :=
  fun s hs => h hs.1 s hs.2

/-- An optional value that is present is returned, an absent one stops the program. -/
theorem ofOption {e : ε} {o : Option α} :
    Triple (fun s => (∀ a, o = some a → Q a s) ∧ (o = none → E e s))
      (Prog.ofOption e o : Prog σ ε α) Q E := by
  intro s hs
  cases o with
  | some a => exact hs.1 a rfl
  | none => exact hs.2 rfl

/-- A clean-up runs after an error, and the error is passed on. -/
theorem onError {h : Prog σ ε Unit} {F : ε → σ → Prop} (hm : Triple P m Q F)
    (hh : ∀ e, Triple (F e) h (fun _ s => E e s) E) : Triple P (Prog.onError m h) Q E := by
  intro s hs
  have h1 := hm s hs
  unfold Prog.onError
  rcases hms : m s with ⟨r, s'⟩
  rw [hms] at h1
  cases r with
  | ok a => exact h1
  | error e =>
    have h2 := hh e s' h1
    rcases hhs : h s' with ⟨r', s''⟩
    rw [hhs] at h2
    cases r' with
    | ok _ => simpa only [hhs] using h2
    | error e' => simpa only [hhs] using h2

/-- The loop rule: an invariant indexed by the elements still to visit. -/
theorem forM {f : α → Prog σ ε PUnit} {I : List α → σ → Prop}
    (hstep : ∀ a rest, Triple (I (a :: rest)) (f a) (fun _ s => I rest s) E) :
    ∀ l, Triple (I l) (List.forM l f) (fun _ s => I [] s) E
  | [] => fun _ h => h
  | a :: rest => by
    show Triple _ (f a >>= fun _ => List.forM rest f) _ _
    exact Triple.bind (hstep a rest) (fun _ => Triple.forM hstep rest)

end Triple

/-! ### Preservation -/

/-- `m` preserves `I`, whether it returns or stops. -/
def Keeps (I : σ → Prop) (m : Prog σ ε α) : Prop :=
  Triple I m (fun _ s => I s) (fun _ s => I s)

namespace Keeps

variable {I J : σ → Prop} {m : Prog σ ε α}

/-- The state reached satisfies the invariant. -/
theorem apply (h : Keeps I m) {s : σ} (hs : I s) : I (m s).2 := Triple.apply h hs

theorem of_apply (h : ∀ s, I s → I (m s).2) : Keeps I m := by
  intro s hs
  have := h s hs
  rcases hm : m s with ⟨r, s'⟩
  rw [hm] at this
  cases r <;> exact this

theorem pure (a : α) : Keeps I (Pure.pure a : Prog σ ε α) := fun _ h => h

theorem fail (e : ε) : Keeps I (Prog.fail e : Prog σ ε α) := fun _ h => h

theorem get : Keeps I (Prog.get : Prog σ ε σ) := fun _ h => h

theorem gets (f : σ → α) : Keeps I (Prog.gets f : Prog σ ε α) := fun _ h => h

theorem modify {f : σ → σ} (h : ∀ s, I s → I (f s)) : Keeps I (Prog.modify f : Prog σ ε Unit) := h

/-- A program that reads the state first may use what it read. -/
theorem get_bind {f : σ → Prog σ ε β} (h : ∀ s, I s → I (f s s).2) : Keeps I (Prog.get >>= f) :=
  of_apply h

theorem ofOption (e : ε) (o : Option α) : Keeps I (Prog.ofOption e o : Prog σ ε α) := by
  intro s hs
  cases o <;> exact hs

theorem ofExcept (o : Except ε α) : Keeps I (Prog.ofExcept o : Prog σ ε α) := by
  intro s hs
  cases o <;> exact hs

theorem bind {f : α → Prog σ ε β} (hm : Keeps I m) (hf : ∀ a, Keeps I (f a)) :
    Keeps I (m >>= f) :=
  Triple.bind hm hf

theorem ite {c : Prop} [Decidable c] {m₁ m₂ : Prog σ ε α} (h₁ : Keeps I m₁) (h₂ : Keeps I m₂) :
    Keeps I (if c then m₁ else m₂) :=
  Triple.ite (fun _ => h₁) (fun _ => h₂)

theorem when {c : Prop} [Decidable c] {m : Prog σ ε Unit} (hm : Keeps I m) :
    Keeps I (Prog.when c m) :=
  ite hm (pure ())

theorem onError {h : Prog σ ε Unit} (hm : Keeps I m) (hh : Keeps I h) :
    Keeps I (Prog.onError m h) :=
  Triple.onError hm (fun _ => hh)

theorem forM {f : α → Prog σ ε PUnit} (h : ∀ a, Keeps I (f a)) (l : List α) :
    Keeps I (List.forM l f) :=
  Triple.forM (I := fun _ => I) (fun a _ => h a) l

theorem and (h₁ : Keeps I m) (h₂ : Keeps J m) : Keeps (fun s => I s ∧ J s) m :=
  of_apply fun _ hs => ⟨h₁.apply hs.1, h₂.apply hs.2⟩

end Keeps

end StateProg
