import RivetLua.Lib.Wire

namespace Wire

/-!
# Two readers of one format

A format may have a second reader that only walks over the bytes, to find out whether the first
one will get through.  `Agree` compares the outcomes of two computations: both succeed with related
values, or both fail, or one of them fails with an error that it is allowed to fail with alone.
`Follows` compares two readers on the same input; where both accept they stop at the same byte.

* `Agree`, `Agree.bind` — outcomes;
* `Follows.bind`, `Follows.take`, `Follows.loop`, … — one rule for each reader;
* `Fixed` — readers that take a fixed number of bytes, whatever these are.
-/

/-! ### Outcomes -/

section Agree

variable {ε δ α β γ τ : Type} {F : ε → Prop} {G : δ → Prop}

/-- The outcomes agree: on success the values are related, and a failure of one side only is
    among those allowed for it. -/
def Agree (F : ε → Prop) (G : δ → Prop) (x : Except ε α) (y : Except δ β) (R : α → β → Prop) :
    Prop :=
  match x, y with
  | .ok a, .ok b => R a b
  | .ok _, .error e => G e
  | .error e, .ok _ => F e
  | .error _, .error _ => True

namespace Agree

variable {x : Except ε α} {y : Except δ β} {R R' : α → β → Prop}

theorem conseq (h : Agree F G x y R) (hR : ∀ a b, R a b → R' a b) : Agree F G x y R' := by
  rcases x with e | a <;> rcases y with e' | b
  · exact h
  · exact h
  · exact h
  · exact hR a b h

theorem ok {a : α} {b : β} (h : R a b) : Agree F G (.ok a) (.ok b) R := h

/-- One step after the other, on both sides. -/
theorem bind {k : α → Except ε γ} {l : β → Except δ τ} {R' : γ → τ → Prop}
    (h : Agree F G x y R) (hk : ∀ a b, R a b → Agree F G (k a) (l b) R') :
    Agree F G (x >>= k) (y >>= l) R' := by
  rcases x with e | a <;> rcases y with e' | b
  · trivial
  · show Agree F G (.error e) (l b) R'
    rcases l b with e' | t
    · trivial
    · exact h
  · show Agree F G (k a) (.error e') R'
    rcases k a with e | c
    · trivial
    · exact h
  · exact hk a b h

/-- What a success on the left gives. -/
theorem of_left {a : α} (h : Agree F G x y R) (hx : x = .ok a) :
    (∃ b, y = .ok b ∧ R a b) ∨ ∃ e, y = .error e ∧ G e := by
  subst hx
  rcases y with e | b
  · exact .inr ⟨e, rfl, h⟩
  · exact .inl ⟨b, rfl, h⟩

/-- What a success on the right gives. -/
theorem of_right {b : β} (h : Agree F G x y R) (hy : y = .ok b) :
    (∃ a, x = .ok a ∧ R a b) ∨ ∃ e, x = .error e ∧ F e := by
  subst hy
  rcases x with e | a
  · exact .inr ⟨e, rfl, h⟩
  · exact .inl ⟨a, rfl, h⟩

/-- A failure that is allowed agrees with every outcome. -/
theorem error_left {e : ε} (h : F e) : Agree F G (.error e : Except ε α) y R := by
  rcases y with e' | b
  · trivial
  · exact h

theorem error_right {e : δ} (h : G e) : Agree F G x (.error e : Except δ β) R := by
  rcases x with e' | a
  · trivial
  · exact h

end Agree

end Agree

/-! ### Readers -/

/-- Run a reader `n` times, each time with the value of the time before. -/
def iterate {δ β : Type} (step : β → Reader δ β) : Nat → β → Reader δ β
  | 0, b => pure b
  | n + 1, b => do
    let b ← step b
    iterate step n b

/-- What every step of a loop adds is added as often as the loop runs. -/
theorem iterate_adds {ε β : Type} {step : β → Reader ε β} {size : β → Nat} {k : Nat}
    (h : ∀ b i b' t, step b i = .ok (b', t) → size b' = size b + k) {n : Nat} {b b' : β}
    {i t : Input} (hrun : iterate step n b i = .ok (b', t)) : size b' = size b + n * k := by
  induction n generalizing b i with
  | zero =>
    obtain ⟨rfl, -⟩ := pure_eq_ok.mp hrun
    rw [Nat.zero_mul, Nat.add_zero]
  | succ n ih =>
    obtain ⟨b₁, i₁, hstep, hrest⟩ := bind_eq_ok.mp hrun
    rw [ih hrest, h b i b₁ i₁ hstep, Nat.succ_mul]
    omega

/-- A check that fails is a failure. -/
theorem reject_bind_pos {ε α : Type} {c : Prop} [Decidable c] {e : ε} (h : c)
    (k : Unit → Reader ε α) : Wire.reject c e >>= k = Wire.fail e := by
  rw [Wire.reject, if_pos h]
  rfl

/-- A list that was read is as long as was asked for. -/
theorem many_length {ε α : Type} {r : Reader ε α} {n : Nat} {i t : Input} {as : List α}
    (h : many r n i = .ok (as, t)) : as.length = n := by
  induction n generalizing i t as with
  | zero =>
    obtain ⟨rfl, -⟩ := pure_eq_ok.mp h
    rfl
  | succ n ih =>
    obtain ⟨a, u, -, hrest⟩ := bind_eq_ok.mp h
    obtain ⟨more, v, hmore, hpure⟩ := bind_eq_ok.mp hrest
    obtain ⟨rfl, -⟩ := pure_eq_ok.mp hpure
    rw [List.length_cons, ih hmore]

/-- The readers agree on every input whose unread bytes satisfy `P`.  Where both accept, they stop
    at the same place, and the values and the bytes left are related. -/
def Follows {ε δ α β : Type} (F : ε → Prop) (G : δ → Prop) (P : List UInt8 → Prop)
    (r : Reader ε α) (s : Reader δ β) (R : α → β → List UInt8 → Prop) : Prop :=
  ∀ rest loc pos, P rest → Agree F G (r ⟨rest, loc⟩) (s ⟨rest, pos⟩)
    fun x y => y.2.rest = x.2.rest ∧ R x.1 y.1 x.2.rest

namespace Follows

variable {ε δ α β γ τ : Type} {F : ε → Prop} {G : δ → Prop} {P P' : List UInt8 → Prop}
  {r : Reader ε α} {s : Reader δ β} {R R' : α → β → List UInt8 → Prop}

theorem conseq (h : Follows F G P r s R) (hP : ∀ rest, P' rest → P rest)
    (hR : ∀ a b rest, R a b rest → R' a b rest) : Follows F G P' r s R' := by
  intro rest loc pos hrest
  refine (h rest loc pos (hP rest hrest)).conseq fun x y hxy => ?_
  exact ⟨hxy.1, hR _ _ _ hxy.2⟩

/-- The rule for sequencing. -/
theorem bind {k : α → Reader ε γ} {l : β → Reader δ τ} {R' : γ → τ → List UInt8 → Prop}
    (h : Follows F G P r s R) (hk : ∀ a b, Follows F G (R a b) (k a) (l b) R') :
    Follows F G P (r >>= k) (s >>= l) R' := by
  intro rest loc pos hrest
  refine Agree.bind (h rest loc pos hrest) ?_
  intro x y hxy
  obtain ⟨a, ⟨rest', loc'⟩⟩ := x
  obtain ⟨b, ⟨rest'', pos'⟩⟩ := y
  obtain ⟨heq, hR⟩ := hxy
  obtain rfl : rest'' = rest' := heq
  exact hk a b rest'' loc' pos' hR

theorem pure {a : α} {b : β} (h : ∀ rest, P rest → R a b rest) :
    Follows F G P (Pure.pure a) (Pure.pure b) R :=
  fun rest _ _ hrest => ⟨rfl, h rest hrest⟩

/-- The next `n` bytes on both sides. -/
theorem take {n : Nat} {e : Nat → ε} {e' : Nat → δ} {R : List UInt8 → List UInt8 → List UInt8 → Prop}
    (h : ∀ front back, P (front ++ back) → front.length = n → R front front back) :
    Follows F G P (Wire.take e n) (Wire.take e' n) R := by
  intro rest loc pos hrest
  by_cases hn : n ≤ rest.length
  · simp only [Wire.take, if_pos hn]
    refine ⟨rfl, h _ _ ?_ ?_⟩
    · rwa [List.take_append_drop]
    · exact List.length_take_of_le hn
  · simp only [Wire.take, if_neg hn]
    trivial

/-- A word of `n` bytes on both sides. -/
theorem word {n : Nat} {e : Nat → ε} {e' : Nat → δ} {Q : List UInt8 → Prop}
    (value : List UInt8 → γ) (h : ∀ front back, P (front ++ back) → front.length = n → Q back) :
    Follows F G P (do let bytes ← Wire.take e n; Pure.pure (value bytes))
      (do let bytes ← Wire.take e' n; Pure.pure (value bytes)) fun a b rest => b = a ∧ Q rest := by
  refine bind (R := fun a b rest => b = a ∧ Q rest)
    (take fun front back hrest hlen => ⟨rfl, h front back hrest hlen⟩) fun a b => ?_
  exact pure fun rest hab => ⟨by rw [hab.1], hab.2⟩

/-- Computations that do not touch the input. -/
theorem compute {x : Except ε α} {y : Except δ β}
    (h : ∀ rest, P rest → Agree F G x y fun a b => R a b rest) :
    Follows F G P (Wire.compute x) (Wire.compute y) R := by
  intro rest loc pos hrest
  have hxy := h rest hrest
  rcases x with e | a <;> rcases y with e' | b
  · exact hxy
  · exact hxy
  · exact hxy
  · exact ⟨rfl, hxy⟩

/-- A failure that is allowed. -/
theorem fail_left {e : ε} (h : F e) : Follows F G P (Wire.fail e) s R :=
  fun _ _ _ _ => Agree.error_left h

/-- Failures on both sides. -/
theorem fail {e : ε} {e' : δ} : Follows F G P (Wire.fail e) (Wire.fail e') R :=
  fun _ _ _ _ => trivial

/-- Asking for the position reads nothing. -/
theorem location_left {k : Nat → Reader ε α} (h : ∀ n, Follows F G P (k n) s R) :
    Follows F G P (Wire.location >>= k) s R :=
  fun rest loc pos hrest => h loc rest loc pos hrest

theorem location_right {l : Nat → Reader δ β} (h : ∀ n, Follows F G P r (l n) R) :
    Follows F G P r (Wire.location >>= l) R :=
  fun rest loc pos hrest => h pos rest loc pos hrest

/-- A check on the left only. -/
theorem reject_left {c : Prop} [Decidable c] {e : ε} (hc : c → F e)
    (h : ¬ c → Follows F G P r s R) : Follows F G P (Wire.reject c e >>= fun _ => r) s R := by
  by_cases hcond : c
  · intro rest loc pos hrest
    simp only [Wire.reject, if_pos hcond]
    exact Agree.error_left (hc hcond)
  · simp only [Wire.reject, if_neg hcond]
    exact h hcond

/-- A check on the right only. -/
theorem reject_right {c : Prop} [Decidable c] {e : δ} (hc : c → G e)
    (h : ¬ c → Follows F G P r s R) : Follows F G P r (Wire.reject c e >>= fun _ => s) R := by
  by_cases hcond : c
  · intro rest loc pos hrest
    simp only [Wire.reject, if_pos hcond]
    exact Agree.error_right (hc hcond)
  · simp only [Wire.reject, if_neg hcond]
    exact h hcond

/-- A computation on the left only. -/
theorem compute_left {x : Except ε γ} {k : γ → Reader ε α} (hx : ∀ e, x = .error e → F e)
    (h : ∀ c, x = .ok c → Follows F G P (k c) s R) : Follows F G P (Wire.compute x >>= k) s R := by
  intro rest loc pos hrest
  rcases x with e | c
  · exact Agree.error_left (hx e rfl)
  · exact h c rfl rest loc pos hrest

/-- A computation on the right only. -/
theorem compute_right {y : Except δ γ} {l : γ → Reader δ β} (hy : ∀ e, y = .error e → G e)
    (h : ∀ c, y = .ok c → Follows F G P r (l c) R) : Follows F G P r (Wire.compute y >>= l) R := by
  intro rest loc pos hrest
  rcases y with e | c
  · exact Agree.error_right (hy e rfl)
  · exact h c rfl rest loc pos hrest

/-- A fact about the input that holds whatever has been read. -/
theorem of_pre {φ : Prop} (h : φ → Follows F G P r s R) :
    Follows F G (fun rest => φ ∧ P rest) r s R :=
  fun rest loc pos hrest => h hrest.1 rest loc pos hrest.2

/-- A property of every value the left reader returns. -/
theorem and_left {Q : α → Prop} (h : Follows F G P r s R)
    (hr : ∀ i a t, r i = .ok (a, t) → Q a) :
    Follows F G P r s fun a b rest => Q a ∧ R a b rest := by
  intro rest loc pos hrest
  have hrun := h rest loc pos hrest
  have hvalue := hr ⟨rest, loc⟩
  generalize r ⟨rest, loc⟩ = x at hrun hvalue ⊢
  generalize s ⟨rest, pos⟩ = y at hrun ⊢
  rcases x with e | ⟨a, t⟩ <;> rcases y with e' | ⟨b, t'⟩
  · trivial
  · exact hrun
  · exact hrun
  · exact ⟨hrun.1, hvalue a t rfl, hrun.2⟩

/-- A reader on the left that accepts nothing agrees with a failure. -/
theorem never_left {e : δ} (h : ∀ i a t, r i ≠ .ok (a, t)) : Follows F G P r (Wire.fail e) R := by
  intro rest loc pos _
  have hvalue := h ⟨rest, loc⟩
  generalize r ⟨rest, loc⟩ = x at hvalue ⊢
  rcases x with e' | ⟨a, t⟩
  · trivial
  · exact absurd rfl (hvalue a t)

/-- A reader on the right that accepts nothing, where its failures are allowed. -/
theorem never_right (hG : ∀ e, G e)
    (h : ∀ rest pos, P rest → ∀ b t, s ⟨rest, pos⟩ ≠ .ok (b, t)) : Follows F G P r s R := by
  intro rest loc pos hrest
  have hvalue := h rest pos hrest
  generalize s ⟨rest, pos⟩ = y at hvalue ⊢
  rcases y with e | ⟨b, t⟩
  · exact Agree.error_right (hG e)
  · exact absurd rfl (hvalue b t)

/-- Two steps on the left that are one step on the right. -/
theorem pair_left {k : α → Reader ε γ} {g : α → γ → Reader ε τ} {R : τ → β → List UInt8 → Prop}
    (h : Follows F G P ((do let a ← r; let c ← k a; Pure.pure (a, c)) >>= fun p => g p.1 p.2) s R) :
    Follows F G P (r >>= fun a => k a >>= g a) s R := by
  simpa only [bind_assoc, pure_bind] using h

/-- Two loops of the same length, step by step. -/
theorem iterate {stepL : α → Reader ε α} {stepR : β → Reader δ β} {I : α → β → List UInt8 → Prop}
    (h : ∀ a b, Follows F G (I a b) (stepL a) (stepR b) I) (n : Nat) (a : α) (b : β) :
    Follows F G (I a b) (Wire.iterate stepL n a) (Wire.iterate stepR n b) I := by
  induction n generalizing a b with
  | zero => exact pure fun _ hrest => hrest
  | succ n ih => exact (h a b).bind fun a' b' => ih a' b'

/-- A function of the value on the left. -/
theorem map_left {f : α → γ} {R' : γ → β → List UInt8 → Prop} (h : Follows F G P r s R)
    (hR : ∀ a b rest, R a b rest → R' (f a) b rest) :
    Follows F G P (r >>= fun a => Pure.pure (f a)) s R' := by
  intro rest loc pos hrest
  have hrun := h rest loc pos hrest
  show Agree F G (Except.bind (r ⟨rest, loc⟩) fun p => .ok (f p.1, p.2)) _ _
  generalize r ⟨rest, loc⟩ = x at hrun ⊢
  generalize s ⟨rest, pos⟩ = y at hrun ⊢
  rcases x with e | ⟨a, t⟩ <;> rcases y with e' | ⟨b, t'⟩
  · trivial
  · exact hrun
  · exact hrun
  · exact ⟨hrun.1, hR a b t.rest hrun.2⟩

/-- A function of the value on the right. -/
theorem map_right {f : β → γ} {R' : α → γ → List UInt8 → Prop} (h : Follows F G P r s R)
    (hR : ∀ a b rest, R a b rest → R' a (f b) rest) :
    Follows F G P r (s >>= fun b => Pure.pure (f b)) R' := by
  intro rest loc pos hrest
  have hrun := h rest loc pos hrest
  show Agree F G _ (Except.bind (s ⟨rest, pos⟩) fun p => .ok (f p.1, p.2)) _
  generalize r ⟨rest, loc⟩ = x at hrun ⊢
  generalize s ⟨rest, pos⟩ = y at hrun ⊢
  rcases x with e | ⟨a, t⟩ <;> rcases y with e' | ⟨b, t'⟩
  · trivial
  · exact hrun
  · exact hrun
  · exact ⟨hrun.1, hR a b t.rest hrun.2⟩

/-- A list on the left against a walk with an accumulator on the right.  The invariant speaks of the
    values read so far. -/
theorem loop {step : β → Reader δ β} {I : List α → β → List UInt8 → Prop}
    (h : ∀ as b, Follows F G (I as b) r (step b) fun a b' rest => I (as ++ [a]) b' rest)
    (n : Nat) (as : List α) (b : β) :
    Follows F G (I as b) (Wire.many r n) (Wire.iterate step n b)
      fun more b' rest => more.length = n ∧ I (as ++ more) b' rest := by
  induction n generalizing as b with
  | zero =>
    refine pure fun rest hrest => ⟨rfl, ?_⟩
    rwa [List.append_nil]
  | succ n ih =>
    refine (h as b).bind fun a b' => ?_
    refine (ih (as ++ [a]) b').map_left fun more b'' rest hmore => ?_
    obtain ⟨hlen, hI⟩ := hmore
    refine ⟨by rw [List.length_cons, hlen], ?_⟩
    simpa using hI

/-- Two readers that have to use up the same bytes. -/
theorem runAt {bytes : List UInt8} {e : Nat → ε} {e' : Nat → δ} (h : Follows F G P r s R)
    (hP : P bytes) (base start : Nat) :
    Agree F G (Wire.runAt (do let a ← r; finished e; Pure.pure a) bytes base)
      (Wire.runAt (do let b ← s; finished e'; Pure.pure b) bytes start)
      fun a b => R a b [] := by
  have hfinish : Follows F G P (do let a ← r; finished e; Pure.pure a)
      (do let b ← s; finished e'; Pure.pure b) fun a b rest => rest = [] ∧ R a b rest := by
    refine h.bind fun a b => ?_
    intro rest loc pos hrest
    by_cases hempty : rest = []
    · show Agree F G ((finished e >>= fun _ => Pure.pure a : Reader ε α) ⟨rest, loc⟩)
        ((finished e' >>= fun _ => Pure.pure b : Reader δ β) ⟨rest, pos⟩) _
      subst hempty
      exact ⟨rfl, rfl, hrest⟩
    · have hr : (finished e >>= fun _ => Pure.pure a : Reader ε α) ⟨rest, loc⟩
          = .error (e loc) := by
        show Except.bind (finished e ⟨rest, loc⟩) _ = _
        rw [finished, if_neg hempty]
        rfl
      have hs : (finished e' >>= fun _ => Pure.pure b : Reader δ β) ⟨rest, pos⟩
          = .error (e' pos) := by
        show Except.bind (finished e' ⟨rest, pos⟩) _ = _
        rw [finished, if_neg hempty]
        rfl
      rw [hr, hs]
      trivial
  have hrun := hfinish bytes base start hP
  unfold Wire.runAt
  generalize (do let a ← r; finished e; Pure.pure a : Reader ε α) ⟨bytes, base⟩ = x at hrun ⊢
  generalize (do let b ← s; finished e'; Pure.pure b : Reader δ β) ⟨bytes, start⟩ = y at hrun ⊢
  rcases x with e | ⟨a, t⟩ <;> rcases y with e' | ⟨b, t'⟩
  · exact hrun
  · exact hrun
  · exact hrun
  · obtain ⟨-, hempty, hR⟩ := hrun
    rwa [hempty] at hR

end Follows

/-! ### Readers that take at least some bytes -/

/-- The reader takes `k` bytes or more. -/
def Takes {ε α : Type} (k : Nat) (r : Reader ε α) : Prop :=
  ∀ i a t, r i = .ok (a, t) → k + t.rest.length ≤ i.rest.length

namespace Takes

variable {ε α β : Type} {k m : Nat} {r : Reader ε α}

theorem take (e : Nat → ε) (n : Nat) : Takes n (Wire.take e n) := by
  intro i a t h
  unfold Wire.take at h
  split at h
  · rename_i hn
    cases h
    rw [List.length_drop]
    omega
  · cases h

theorem pure (a : α) : Takes 0 (Pure.pure a : Reader ε α) := by
  intro i b t h
  obtain ⟨-, rfl⟩ := pure_eq_ok.mp h
  omega

theorem bind {l : α → Reader ε β} (h : Takes k r) (hl : ∀ a, Takes m (l a)) :
    Takes (k + m) (r >>= l) := by
  intro i b t hrun
  obtain ⟨a, u, hr, hla⟩ := bind_eq_ok.mp hrun
  have hfirst := h i a u hr
  have hsecond := hl a u b t hla
  omega

theorem mono (h : Takes k r) (hm : m ≤ k) : Takes m r := by
  intro i a t hrun
  have hk := h i a t hrun
  omega

theorem fail {e : ε} : Takes k (Wire.fail e : Reader ε α) := by
  intro i a t h
  cases h

theorem location_bind {l : Nat → Reader ε α} (h : ∀ n, Takes k (l n)) :
    Takes k (Wire.location >>= l) :=
  fun i a t hrun => h i.location i a t hrun

theorem iterate {step : α → Reader ε α} (h : ∀ a, Takes k (step a)) (n : Nat) (a : α) :
    Takes (n * k) (Wire.iterate step n a) := by
  induction n generalizing a with
  | zero =>
    rw [Nat.zero_mul]
    exact pure a
  | succ n ih =>
    have hbind : Takes (k + n * k) (Wire.iterate step (n + 1) a) := (h a).bind fun a' => ih a'
    rwa [Nat.add_comm, ← Nat.succ_mul] at hbind

/-- More bytes than there are cannot be taken. -/
theorem never {l : α → Reader ε β} (h : Takes k r) {rest : List UInt8} {loc : Nat}
    (hk : rest.length < k) (b : β) (t : Input) : (r >>= l) ⟨rest, loc⟩ ≠ .ok (b, t) := by
  intro hrun
  obtain ⟨a, u, hr, -⟩ := bind_eq_ok.mp hrun
  have hlen := h _ _ _ hr
  simp only at hlen
  omega

end Takes

/-! ### Readers of a fixed length -/

/-- The reader takes exactly `n` bytes; with `n` bytes there it fails only as allowed. -/
def Fixed {ε α : Type} (F : ε → Prop) (n : Nat) (r : Reader ε α) : Prop :=
  ∀ rest loc, match r ⟨rest, loc⟩ with
    | .ok (_, t) => n ≤ rest.length ∧ t.rest = rest.drop n
    | .error e => n ≤ rest.length → F e

namespace Fixed

variable {ε δ α β : Type} {F : ε → Prop} {n m : Nat} {r : Reader ε α}

theorem take (e : Nat → ε) (n : Nat) : Fixed F n (Wire.take e n) := by
  intro rest loc
  by_cases hn : n ≤ rest.length
  · simp only [Wire.take, if_pos hn]
    exact ⟨hn, trivial⟩
  · simp only [Wire.take, if_neg hn]
    exact fun h => absurd h hn

theorem pure (a : α) : Fixed F 0 (Pure.pure a : Reader ε α) :=
  fun _ _ => ⟨Nat.zero_le _, rfl⟩

theorem bind {k : α → Reader ε β} (h : Fixed F m r) (hk : ∀ a, Fixed F n (k a)) :
    Fixed F (m + n) (r >>= k) := by
  intro rest loc
  have hr := h rest loc
  show match Except.bind (r ⟨rest, loc⟩) (fun p => k p.1 p.2) with
    | .ok (_, t) => _
    | .error e => _
  rcases hrun : r ⟨rest, loc⟩ with e | ⟨a, t⟩
  · rw [hrun] at hr
    exact fun hlen => hr (by omega)
  · rw [hrun] at hr
    obtain ⟨hm, ht⟩ := hr
    have hka := hk a t.rest t.location
    have hlen : t.rest.length = rest.length - m := by rw [ht, List.length_drop]
    show match k a t with
      | .ok (_, t) => _
      | .error e => _
    rcases hrun' : k a t with e | ⟨b, t'⟩
    · rw [hrun'] at hka
      exact fun hle => hka (by omega)
    · rw [hrun'] at hka
      obtain ⟨hn, ht'⟩ := hka
      refine ⟨by omega, ?_⟩
      rw [ht', ht, List.drop_drop]

/-- A step that reads nothing. -/
theorem bind_zero {k : α → Reader ε β} (h : Fixed F 0 r) (hk : ∀ a, Fixed F n (k a)) :
    Fixed F n (r >>= k) := by
  have hbind := h.bind hk
  rwa [Nat.zero_add] at hbind

theorem location : Fixed F 0 (Wire.location : Reader ε Nat) :=
  fun _ _ => ⟨Nat.zero_le _, rfl⟩

theorem compute {x : Except ε α} (h : ∀ e, x = .error e → F e) : Fixed F 0 (Wire.compute x) := by
  intro rest loc
  rcases x with e | a
  · exact fun _ => h e rfl
  · exact ⟨Nat.zero_le _, rfl⟩

theorem reject {c : Prop} [Decidable c] {e : ε} (h : F e) : Fixed F 0 (Wire.reject c e) := by
  intro rest loc
  by_cases hc : c
  · simp only [Wire.reject, if_pos hc]
    exact fun _ => h
  · simp only [Wire.reject, if_neg hc]
    exact ⟨Nat.zero_le _, rfl⟩

/-- A failure that is allowed may stand for a reader of any length. -/
theorem fail {e : ε} (h : F e) : Fixed F n (Wire.fail e : Reader ε α) :=
  fun _ _ _ => h

theorem many (h : Fixed F n r) (count : Nat) : Fixed F (count * n) (Wire.many r count) := by
  induction count with
  | zero =>
    rw [Nat.zero_mul]
    exact pure []
  | succ count ih =>
    have hbind : Fixed F (n + (count * n + 0)) (Wire.many r (count + 1)) :=
      h.bind fun a => ih.bind fun as => pure (a :: as)
    rwa [Nat.add_zero, Nat.add_comm, ← Nat.succ_mul] at hbind

theorem iterate {step : α → Reader ε α} (h : ∀ a, Fixed F n (step a)) (count : Nat) (a : α) :
    Fixed F (count * n) (Wire.iterate step count a) := by
  induction count generalizing a with
  | zero =>
    rw [Nat.zero_mul]
    exact pure a
  | succ count ih =>
    have hbind : Fixed F (n + count * n) (Wire.iterate step (count + 1) a) :=
      (h a).bind fun a' => ih a'
    rwa [Nat.add_comm, ← Nat.succ_mul] at hbind

/-- A reader of a fixed length against a walk over as many bytes. -/
theorem follows {G : δ → Prop} {P : List UInt8 → Prop} {e : Nat → δ}
    {R : α → List UInt8 → List UInt8 → Prop} (h : Fixed F n r)
    (hR : ∀ a front back, P (front ++ back) → front.length = n → R a front back) :
    Follows F G P r (Wire.take e n) R := by
  intro rest loc pos hrest
  have hr := h rest loc
  by_cases hn : n ≤ rest.length
  · simp only [Wire.take, if_pos hn]
    rcases hrun : r ⟨rest, loc⟩ with e | ⟨a, t⟩
    · rw [hrun] at hr
      exact hr hn
    · rw [hrun] at hr
      refine ⟨hr.2.symm, ?_⟩
      rw [show t.rest = rest.drop n from hr.2]
      refine hR a _ _ ?_ (List.length_take_of_le hn)
      rwa [List.take_append_drop]
  · simp only [Wire.take, if_neg hn]
    rcases hrun : r ⟨rest, loc⟩ with e | ⟨a, t⟩
    · trivial
    · rw [hrun] at hr
      exact absurd hr.1 hn

end Fixed

end Wire
