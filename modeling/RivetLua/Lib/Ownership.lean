import Mathlib.Algebra.BigOperators.Group.List.Basic
import Mathlib.Tactic.Abel
import RivetLua.Lib.Prog

namespace StateProg

/-!
# Programs that own resources

A program is given some resources and ends with others.  When it stops with an error it has dropped
everything it was given, as the destructors of its variables do.  The resources form a commutative
monoid `R`, and `B r` holds in the states where exactly `r` is out.

* `Turns B c m k` — `m` is given `c` and ends with `k`, or drops `c` and stops;
* `Turns.bind`, `Turns.onError` — what the first part leaves the second part is given, and a
  clean-up drops what was kept aside.
-/

variable {σ ε R : Type} [AddCommMonoid R] {B : R → σ → Prop} {α β : Type}

/-- The program is given `c`.  It ends with `k a` for its result `a`, or stops with `c` dropped. -/
def Turns (B : R → σ → Prop) (c : R) (m : Prog σ ε α) (k : α → R) : Prop :=
  ∀ r, Triple (B (r + c)) m (fun a => B (r + k a)) (fun _ => B r)

namespace Turns

variable {c d : R} {m : Prog σ ε α} {k : α → R}

/-- Resources may be written in another way. -/
theorem congr {c' : R} {k' : α → R} (h : Turns B c m k) (hc : c' = c) (hk : ∀ a, k' a = k a) :
    Turns B c' m k' := by
  rw [hc, funext hk]
  exact h

theorem pure (a : α) : Turns B (k a) (Pure.pure a : Prog σ ε α) k := fun _ _ h => h

/-- A result that owns what the program was given. -/
theorem return_of {a : α} (h : c = k a) : Turns B c (Pure.pure a : Prog σ ε α) k :=
  (pure a).congr h fun _ => rfl

theorem fail (e : ε) : Turns B 0 (Prog.fail e : Prog σ ε α) k := by
  intro r s h
  rw [add_zero] at h
  exact h

/-- What the first part ends with is what the second part is given. -/
theorem bind {f : α → Prog σ ε β} {l : β → R} (hm : Turns B c m k)
    (hf : ∀ a, Turns B (k a) (f a) l) : Turns B c (m >>= f) l :=
  fun r => Triple.bind (hm r) fun a => hf a r

theorem ite {p : Prop} [Decidable p] {m₁ m₂ : Prog σ ε α} (h₁ : p → Turns B c m₁ k)
    (h₂ : ¬ p → Turns B c m₂ k) : Turns B c (if p then m₁ else m₂) k :=
  fun r => Triple.ite (fun hp => h₁ hp r) fun hp => h₂ hp r

/-- What is kept aside is dropped by the clean-up. -/
theorem onError {h : Prog σ ε Unit} (hm : Turns B c m k) (hh : Turns B d h fun _ => 0) :
    Turns B (c + d) (Prog.onError m h) fun a => k a + d := by
  intro r
  refine Triple.onError (F := fun _ => B (r + d)) ?_ ?_
  · refine (hm (r + d)).conseq ?_ ?_ fun _ _ h => h
    · intro s hs
      rwa [show r + (c + d) = r + d + c by abel] at hs
    · intro a s hs
      rwa [show r + d + k a = r + (k a + d) by abel] at hs
  · intro _
    refine (hh r).conseq (fun _ hs => hs) ?_ fun _ _ h => h
    intro _ s hs
    rwa [add_zero] at hs

/-- A program that is given nothing, with something kept aside. -/
theorem onError_zero {h : Prog σ ε Unit} (hm : Turns B 0 m k) (hh : Turns B d h fun _ => 0) :
    Turns B d (Prog.onError m h) fun a => k a + d :=
  (hm.onError hh).congr (zero_add d).symm fun _ => rfl

theorem map {f : α → β} {l : β → R} (hm : Turns B c m k) (hf : ∀ a, k a = l (f a)) :
    Turns B c (f <$> m) l :=
  hm.bind fun a => return_of (hf a)

theorem ofOption {e : ε} {o : Option α} (h : ∀ a, o = some a → k a = 0) :
    Turns B 0 (Prog.ofOption e o : Prog σ ε α) k := by
  cases o with
  | none => exact fail e
  | some a => exact return_of (h a rfl).symm

theorem ofExcept {o : Except ε α} (h : ∀ a, o = .ok a → k a = 0) :
    Turns B 0 (Prog.ofExcept o : Prog σ ε α) k := by
  cases o with
  | error e => exact fail e
  | ok a => exact return_of (h a rfl).symm

/-- A program that neither takes nor gives. -/
theorem of_keeps {m : Prog σ ε α} (h : ∀ r, Keeps (B r) m) : Turns B 0 m fun _ => 0 := by
  intro r
  refine (h r).conseq ?_ ?_ fun _ _ h => h
  · intro s hs
    rwa [add_zero] at hs
  · intro _ s hs
    rwa [add_zero]

/-- A state change that drops what it is given. -/
theorem modify {f : σ → σ} (h : ∀ r s, B (r + c) s → B r (f s)) :
    Turns B c (Prog.modify f : Prog σ ε Unit) fun _ => 0 := by
  intro r s hs
  show B (r + 0) (f s)
  rw [add_zero]
  exact h r s hs

end Turns

end StateProg
