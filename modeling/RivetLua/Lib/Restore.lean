import RivetLua.Lib.Carry

namespace Wire

/-!
# Readers on the bytes that a writer has left

A reader may run out of something that a writer does not know about: memory, a budget, a table of
fixed size.  `Restores` says what it does on given bytes, whatever comes behind them: it stops right
behind them with the value that is asked for, unless it fails with one of the errors allowed for it.
The reader's state may hold more than its input; `view` is the part with the input.

* `Restores.bind`, `Restores.take`, … — one rule for each reader;
* `Restores.iterate` — loops that read one item after the other.
-/

variable {ε α β τ σ : Type}

/-- On the given bytes the reader takes a state with `P` to one with `Q`, and stops right behind the
    bytes, unless it fails with an error in `F`. -/
def Restores (view : τ → Input) (F : ε → Prop) (P : τ → Prop) (m : StateT τ (Except ε) α)
    (bytes : List UInt8) (Q : α → τ → Prop) : Prop :=
  ∀ s tail, (view s).rest = bytes ++ tail → P s →
    match m s with
    | .ok (a, t) => view t = ⟨tail, (view s).location + bytes.length⟩ ∧ Q a t
    | .error e => F e

/-- Where nothing is to be read, the input stays. -/
theorem Input.unmoved {i : Input} {tail : List UInt8} (h : i.rest = [] ++ tail) :
    i = ⟨tail, i.location + ([] : List UInt8).length⟩ := by
  cases i
  cases h
  rfl

namespace Restores

variable {view : τ → Input} {F : ε → Prop} {P : τ → Prop} {m : StateT τ (Except ε) α}
  {bytes front back : List UInt8} {Q : α → τ → Prop} {R : β → τ → Prop}

theorem conseq {P' : τ → Prop} {Q' : α → τ → Prop} (h : Restores view F P m bytes Q)
    (hP : ∀ s, P' s → P s) (hQ : ∀ a t, Q a t → Q' a t) : Restores view F P' m bytes Q' := by
  intro s tail hrest hs
  have hm := h s tail hrest (hP s hs)
  cases hrun : m s with
  | error e =>
    rw [hrun] at hm
    exact hm
  | ok out =>
    rw [hrun] at hm
    exact ⟨hm.1, hQ _ _ hm.2⟩

theorem pure {a : α} (h : ∀ s, P s → Q a s) :
    Restores view F P (Pure.pure a : StateT τ (Except ε) α) [] Q := by
  intro s tail hrest hs
  exact ⟨Input.unmoved hrest, h s hs⟩

/-- One reader behind the other. -/
theorem bind {k : α → StateT τ (Except ε) β} (hm : Restores view F P m front Q)
    (hk : ∀ a, Restores view F (Q a) (k a) back R) :
    Restores view F P (m >>= k) (front ++ back) R := by
  intro s tail hrest hs
  have hfirst := hm s (back ++ tail) (by rw [hrest, List.append_assoc]) hs
  show match Except.bind (m s) (fun p => k p.1 p.2) with
    | .ok (b, t) => _
    | .error e => _
  cases hrun : m s with
  | error e =>
    rw [hrun] at hfirst
    exact hfirst
  | ok out =>
    obtain ⟨a, t⟩ := out
    rw [hrun] at hfirst
    obtain ⟨hview, hQ⟩ := hfirst
    have hsecond := hk a t tail (by rw [hview]) hQ
    show match k a t with
      | .ok (b, t) => _
      | .error e => _
    cases hrun' : k a t with
    | error e =>
      rw [hrun'] at hsecond
      exact hsecond
    | ok out =>
      rw [hrun'] at hsecond
      refine ⟨?_, hsecond.2⟩
      rw [hsecond.1, hview, List.length_append, Nat.add_assoc]

/-- A reader behind which nothing is read. -/
theorem last {k : α → StateT τ (Except ε) β} (hm : Restores view F P m bytes Q)
    (hk : ∀ a, Restores view F (Q a) (k a) [] R) : Restores view F P (m >>= k) bytes R := by
  have h := hm.bind hk
  rwa [List.append_nil] at h

section Input

variable {P : Input → Prop} {Q : α → Input → Prop}

/-- Asking for the position. -/
theorem location {k : Nat → Reader ε α} (h : ∀ n, Restores id F P (k n) bytes Q) :
    Restores id F P (Wire.location >>= k) bytes Q :=
  fun s tail hrest hs => h s.location s tail hrest hs

/-- A check. -/
theorem reject {c : Prop} [Decidable c] {e : ε} (h : c → F e) {P : Input → Prop} :
    Restores id F P (Wire.reject c e) [] fun _ t => ¬ c ∧ P t := by
  intro s tail hrest hs
  unfold Wire.reject
  by_cases hc : c
  · rw [if_pos hc]
    exact h hc
  · rw [if_neg hc]
    exact ⟨Input.unmoved hrest, hc, hs⟩

/-- A computation. -/
theorem compute {x : Except ε α} (hok : ∀ a s, x = .ok a → P s → Q a s)
    (herror : ∀ e, x = .error e → F e) : Restores id F P (Wire.compute x) [] Q := by
  intro s tail hrest hs
  unfold Wire.compute
  cases hx : x with
  | error e => exact herror e hx
  | ok a => exact ⟨Input.unmoved hrest, hok a s hx hs⟩

/-- As many bytes as there are. -/
theorem take {e : Nat → ε} {n : Nat} (hlength : bytes.length = n) {P : Input → Prop}
    (h : ∀ s t, P s → t.location = s.location + n → P t) :
    Restores id F P (Wire.take e n) bytes fun a t => a = bytes ∧ P t := by
  intro s tail hrest hs
  subst hlength
  have hrest : s.rest = bytes ++ tail := hrest
  have hle : bytes.length ≤ s.rest.length := by
    rw [hrest, List.length_append]
    exact Nat.le_add_right _ _
  rw [Wire.take, if_pos hle]
  refine ⟨?_, ?_, h s _ hs rfl⟩
  · show (⟨s.rest.drop bytes.length, _⟩ : Input) = _
    rw [hrest, List.drop_left]
    rfl
  · show s.rest.take bytes.length = bytes
    rw [hrest, List.take_left]

/-- Run a reader once for each item that was written; `acc` says what the reader has gathered behind
    the items so far. -/
theorem iterate {γ δ : Type} {step : β → Reader ε β} (write : γ → Output δ)
    (acc : List γ → β → Prop) {items : List γ} {P : Input → Prop}
    (h : ∀ front item piece, item ∈ items → write item = .ok piece → ∀ b, acc front b →
      Restores id F P (step b) piece fun b' t => acc (front ++ [item]) b' ∧ P t)
    (hwrite : Output.each write items = .ok bytes) {front : List γ} {b : β} (hb : acc front b) :
    Restores id F P (Wire.iterate step items.length b) bytes
      fun b' t => acc (front ++ items) b' ∧ P t := by
  induction items generalizing front b bytes with
  | nil =>
    cases hwrite
    rw [List.append_nil]
    exact .pure fun s hs => ⟨hb, hs⟩
  | cons item items ih =>
    obtain ⟨piece, rest, hpiece, hrest, rfl⟩ := Output.append_eq_ok.mp hwrite
    refine (h front item piece List.mem_cons_self hpiece b hb).bind fun b' => ?_
    intro s tail hinput hs
    have hitems := ih (fun front other piece hmem => h front other piece (.tail _ hmem)) hrest hs.1
      s tail hinput hs.2
    rwa [List.append_assoc] at hitems

end Input

end Restores

end Wire
