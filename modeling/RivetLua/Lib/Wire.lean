import Mathlib.Algebra.Ring.Nat
import Mathlib.Data.List.Forall2
import Mathlib.Tactic.Basic

namespace Wire

/-!
# Byte formats, the readers that recognise them and the writers that produce them

A *format* relates a value to the byte strings that represent it.  A reader consumes bytes from
the front of an input and may fail; `Recognises r F` says that it accepts exactly the strings of
the format `F`, returns the value they represent and stops right behind them.  The rules below
follow the structure of a reader, so that the format of a long reader is computed piece by piece.

* `Format.seq`, `Format.many`, `Format.sized` — formats of compound values;
* `Recognises.bind`, `Recognises.many`, `Recognises.sized`, … — one rule for each reader;
* `Output` — what a writer produces: bytes, or the first error;
* `littleEndian`, `ofLittleEndian` — fixed-width integers.
-/

/-! ### Readers -/

/-- The unread bytes and the position of the first of them. -/
structure Input where
  rest : List UInt8
  location : Nat
  deriving Repr, DecidableEq

/-- A reader: consumes a prefix of the input, or stops with an error. -/
abbrev Reader (ε : Type) := StateT Input (Except ε)

section Reader

variable {ε α β : Type}

/-- The position of the next byte. -/
def location : Reader ε Nat := fun s => .ok (s.location, s)

/-- Stop with an error. -/
def fail (e : ε) : Reader ε α := fun _ => .error e

/-- Stop with the error `e` when the condition holds. -/
def reject (c : Prop) [Decidable c] (e : ε) : Reader ε Unit :=
  if c then fail e else pure ()

/-- A computation that does not touch the input. -/
def compute (x : Except ε α) : Reader ε α := fun s =>
  match x with
  | .ok a => .ok (a, s)
  | .error e => .error e

/-- The next `n` bytes. -/
def take (truncated : Nat → ε) (n : Nat) : Reader ε (List UInt8) := fun s =>
  if n ≤ s.rest.length then .ok (s.rest.take n, ⟨s.rest.drop n, s.location + n⟩)
  else .error (truncated s.location)

/-- Run a reader `n` times. -/
def many (r : Reader ε α) : Nat → Reader ε (List α)
  | 0 => pure []
  | n + 1 => do
    let a ← r
    let as ← many r n
    pure (a :: as)

/-- Run a reader on a byte string that starts at `base`; the reader need not use it up. -/
def runAt (r : Reader ε α) (bytes : List UInt8) (base : Nat) : Except ε α :=
  match r ⟨bytes, base⟩ with
  | .ok (a, _) => .ok a
  | .error e => .error e

/-- Stop unless the input is used up. -/
def finished (e : Nat → ε) : Reader ε Unit := fun s =>
  if s.rest = [] then .ok ((), s) else .error (e s.location)

theorem bind_eq_ok {r : Reader ε α} {k : α → Reader ε β} {s s' : Input} {b : β} :
    (r >>= k) s = .ok (b, s') ↔ ∃ a t, r s = .ok (a, t) ∧ k a t = .ok (b, s') := by
  show Except.bind (r s) (fun p => k p.1 p.2) = .ok (b, s') ↔ _
  cases h : r s with
  | error e => simp [Except.bind]
  | ok p =>
    obtain ⟨a, t⟩ := p
    simp [Except.bind]

theorem pure_eq_ok {a b : α} {s s' : Input} :
    (pure a : Reader ε α) s = .ok (b, s') ↔ b = a ∧ s' = s := by
  show (Except.ok (a, s) : Except ε _) = _ ↔ _
  simp [eq_comm]

end Reader

/-! ### Formats -/

/-- A format: which byte strings represent which value. -/
abbrev Format (α : Type) := α → List UInt8 → Prop

namespace Format

variable {α β : Type}

/-- A value of `F` followed by what `G` makes of it. -/
def seq (F : Format α) (G : α → Format β) : Format β := fun b bytes =>
  ∃ a front back, F a front ∧ G a b back ∧ bytes = front ++ back

/-- `n` values of `F`, one after the other. -/
def many (F : Format α) : Nat → Format (List α)
  | 0 => fun as bytes => as = [] ∧ bytes = []
  | n + 1 => F.seq fun a => (many F n).seq fun as => fun bs bytes => bs = a :: as ∧ bytes = []

/-- The empty string represents one value only. -/
def unit (a : α) : Format α := fun b bytes => b = a ∧ bytes = []

theorem many_iff {F : Format α} {n : Nat} {as : List α} {bytes : List UInt8} :
    many F n as bytes ↔ as.length = n ∧ ∃ parts : List (List UInt8),
      List.Forall₂ F as parts ∧ bytes = parts.flatten := by
  induction n generalizing as bytes with
  | zero =>
    constructor
    · rintro ⟨rfl, rfl⟩
      exact ⟨rfl, [], .nil, rfl⟩
    · rintro ⟨hlen, parts, hparts, rfl⟩
      obtain rfl := List.eq_nil_of_length_eq_zero hlen
      cases hparts
      exact ⟨rfl, rfl⟩
  | succ n ih =>
    constructor
    · rintro ⟨a, front, back, ha, ⟨as', back', last, has, ⟨rfl, rfl⟩, rfl⟩, rfl⟩
      obtain ⟨rfl, parts, hparts, rfl⟩ := ih.mp has
      exact ⟨rfl, front :: parts, .cons ha hparts, by simp⟩
    · rintro ⟨hlen, parts, hparts, rfl⟩
      cases hparts with
      | nil => simp at hlen
      | @cons a front as' parts' ha hparts' =>
        refine ⟨a, front, parts'.flatten, ha,
          ⟨as', parts'.flatten, [], ih.mpr ⟨by simpa using hlen, parts', hparts', rfl⟩,
            ⟨rfl, rfl⟩, by simp⟩, by simp⟩

end Format

/-- The reader accepts exactly the strings of the format, and stops right behind them. -/
def Recognises {ε α : Type} (r : Reader ε α) (F : Format α) : Prop :=
  ∀ s a s', r s = .ok (a, s') ↔
    ∃ bytes, F a bytes ∧ s.rest = bytes ++ s'.rest ∧ s'.location = s.location + bytes.length

namespace Recognises

variable {ε α β : Type} {r : Reader ε α} {F G : Format α}

/-- Two descriptions of one format. -/
theorem congr (h : Recognises r F) (hFG : ∀ a bytes, F a bytes ↔ G a bytes) : Recognises r G := by
  intro s a s'
  simp only [h s a s', hFG]

theorem pure (a : α) : Recognises (Pure.pure a : Reader ε α) (Format.unit a) := by
  intro s b s'
  rw [pure_eq_ok]
  constructor
  · rintro ⟨rfl, rfl⟩
    exact ⟨[], ⟨rfl, rfl⟩, rfl, rfl⟩
  · rintro ⟨bytes, ⟨rfl, rfl⟩, hrest, hloc⟩
    cases s
    cases s'
    simp_all

/-- Failing is right where the format has no string. -/
theorem fail {e : ε} (h : ∀ a bytes, ¬ F a bytes) : Recognises (Wire.fail e : Reader ε α) F := by
  intro s a s'
  constructor
  · intro h'
    cases h'
  · rintro ⟨bytes, hF, -⟩
    exact absurd hF (h a bytes)

/-- The rule for sequencing. -/
theorem bind {k : α → Reader ε β} {K : α → Format β} (hr : Recognises r F)
    (hk : ∀ a, Recognises (k a) (K a)) : Recognises (r >>= k) (F.seq K) := by
  intro s b s'
  rw [bind_eq_ok]
  constructor
  · rintro ⟨a, t, hrs, hks⟩
    obtain ⟨front, hF, hrest, hloc⟩ := (hr s a t).mp hrs
    obtain ⟨back, hK, hrest', hloc'⟩ := (hk a t b s').mp hks
    refine ⟨front ++ back, ⟨a, front, back, hF, hK, rfl⟩, ?_, ?_⟩
    · rw [hrest, hrest', List.append_assoc]
    · rw [hloc', hloc, List.length_append, Nat.add_assoc]
  · rintro ⟨bytes, ⟨a, front, back, hF, hK, rfl⟩, hrest, hloc⟩
    refine ⟨a, ⟨back ++ s'.rest, s.location + front.length⟩, ?_, ?_⟩
    · exact (hr s a _).mpr ⟨front, hF, by rw [hrest, List.append_assoc], rfl⟩
    · exact (hk a _ b s').mpr ⟨back, hK, rfl, by rw [hloc, List.length_append, Nat.add_assoc]⟩

/-- Asking for the position reads nothing. -/
theorem location_bind {k : Nat → Reader ε α} (hk : ∀ n, Recognises (k n) F) :
    Recognises (Wire.location >>= k) F := by
  intro s a s'
  rw [bind_eq_ok]
  constructor
  · rintro ⟨n, t, hn, hks⟩
    cases hn
    exact (hk _ s a s').mp hks
  · intro h
    exact ⟨s.location, s, rfl, (hk _ s a s').mpr h⟩

/-- A check reads nothing. -/
theorem reject_bind {c : Prop} [Decidable c] {e : ε} (hr : ¬ c → Recognises r F) :
    Recognises (Wire.reject c e >>= fun _ => r) (fun a bytes => ¬ c ∧ F a bytes) := by
  intro s a s'
  rw [bind_eq_ok]
  by_cases hc : c
  · simp [Wire.reject, hc, Wire.fail]
  · simp only [Wire.reject, hc, if_false, pure_eq_ok, not_false_iff, true_and]
    rw [← hr hc s a s']
    constructor
    · rintro ⟨u, t, ⟨-, rfl⟩, h⟩
      exact h
    · intro h
      exact ⟨(), s, rfl, h⟩

/-- A check in front of the result. -/
theorem reject_pure {c : Prop} [Decidable c] {e : ε} (a : α) :
    Recognises (Wire.reject c e >>= fun _ => Pure.pure a)
      (fun b bytes => ¬ c ∧ b = a ∧ bytes = []) :=
  reject_bind fun _ => .pure a

theorem compute (x : Except ε α) :
    Recognises (Wire.compute x) (fun a bytes => x = .ok a ∧ bytes = []) := by
  intro s a s'
  cases x with
  | error e => simp [Wire.compute]
  | ok b =>
    constructor
    · intro h
      cases h
      exact ⟨[], ⟨rfl, rfl⟩, rfl, rfl⟩
    · rintro ⟨bytes, ⟨h, rfl⟩, hrest, hloc⟩
      cases h
      cases s
      cases s'
      simp_all [Wire.compute]

/-- The next `n` bytes, whatever they are. -/
theorem take (e : Nat → ε) (n : Nat) :
    Recognises (Wire.take e n) (fun a bytes => a.length = n ∧ bytes = a) := by
  intro s a s'
  unfold Wire.take
  split
  · rename_i hn
    constructor
    · intro h
      cases h
      exact ⟨s.rest.take n, ⟨by simp [hn], rfl⟩, by simp, by simp [hn]⟩
    · rintro ⟨bytes, ⟨rfl, rfl⟩, hrest, hloc⟩
      cases s'
      simp_all
  · rename_i hn
    constructor
    · intro h
      cases h
    · rintro ⟨bytes, ⟨rfl, rfl⟩, hrest, hloc⟩
      simp [hrest] at hn

theorem many (h : Recognises r F) (n : Nat) : Recognises (Wire.many r n) (F.many n) := by
  induction n with
  | zero => exact .pure []
  | succ n ih => exact h.bind fun a => ih.bind fun as => .pure (a :: as)

end Recognises

/-- What a reader that used up its input accepts. -/
theorem runAt_finished_eq_ok {ε α : Type} {r : Reader ε α} {e : Nat → ε} {bytes : List UInt8}
    {base : Nat} {a : α} :
    runAt (do let a ← r; finished e; Pure.pure a) bytes base = .ok a ↔
      ∃ s, r ⟨bytes, base⟩ = .ok (a, s) ∧ s.rest = [] := by
  unfold runAt
  constructor
  · intro hrun
    split at hrun
    · rename_i b s' heq
      obtain ⟨c, t, hr, hk⟩ := bind_eq_ok.mp heq
      obtain ⟨u, t', hu, hp⟩ := bind_eq_ok.mp hk
      obtain ⟨rfl, rfl⟩ := pure_eq_ok.mp hp
      cases hrun
      unfold finished at hu
      split at hu
      · rename_i hempty
        exact ⟨t, hr, hempty⟩
      · cases hu
    · cases hrun
  · rintro ⟨s, hr, hempty⟩
    have hfinished : finished e s = .ok ((), s) := by rw [finished, if_pos hempty]
    have hrun : (do let a ← r; finished e; Pure.pure a : Reader ε α) ⟨bytes, base⟩ = .ok (a, s) :=
      bind_eq_ok.mpr ⟨a, s, hr, bind_eq_ok.mpr ⟨(), s, hfinished, rfl⟩⟩
    rw [hrun]

/-- A reader that has to use up its input accepts the strings of its format. -/
theorem Recognises.runAt_eq_ok {ε α : Type} {r : Reader ε α} {F : Format α} {e : Nat → ε}
    (h : Recognises r F) {bytes : List UInt8} {base : Nat} {a : α} :
    runAt (do let a ← r; finished e; Pure.pure a) bytes base = .ok a ↔ F a bytes := by
  rw [runAt_finished_eq_ok]
  constructor
  · rintro ⟨s, hr, hempty⟩
    obtain ⟨bs, hF, hrest, -⟩ := (h _ _ _).mp hr
    simp only [hempty, List.append_nil] at hrest
    exact hrest ▸ hF
  · intro hF
    exact ⟨⟨[], base + bytes.length⟩, (h _ _ _).mpr ⟨bytes, hF, by simp, rfl⟩, rfl⟩

/-- A computation on the result may as well run before the end of the input is checked. -/
theorem runAt_finished_bind_eq_ok {ε α β : Type} {r : Reader ε α} {g : α → Except ε β}
    {e : Nat → ε} {bytes : List UInt8} {base : Nat} {b : β} :
    (runAt (do let a ← r; finished e; Pure.pure a) bytes base >>= g) = .ok b ↔
      runAt (do let b ← (do let a ← r; compute (g a)); finished e; Pure.pure b) bytes base
        = .ok b := by
  have hcompute : ∀ (x : Except ε β) (s t : Input),
      compute x s = .ok (b, t) ↔ x = .ok b ∧ t = s := by
    intro x s t
    cases x <;> simp [compute, eq_comm]
  rw [runAt_finished_eq_ok]
  constructor
  · intro h
    cases hrun : runAt (do let a ← r; finished e; Pure.pure a) bytes base with
    | error err =>
      rw [hrun] at h
      cases h
    | ok a =>
      rw [hrun] at h
      obtain ⟨s, hr, hempty⟩ := runAt_finished_eq_ok.mp hrun
      exact ⟨s, bind_eq_ok.mpr ⟨a, s, hr, (hcompute _ _ _).mpr ⟨h, rfl⟩⟩, hempty⟩
  · rintro ⟨s, hr, hempty⟩
    obtain ⟨a, t, hra, hc⟩ := bind_eq_ok.mp hr
    obtain ⟨hg, rfl⟩ := (hcompute _ _ _).mp hc
    rw [runAt_finished_eq_ok.mpr ⟨s, hra, hempty⟩]
    exact hg

/-! ### Fixed-width integers -/

/-- The `width` low bytes of a number, lowest first. -/
def littleEndian : Nat → Nat → List UInt8
  | 0, _ => []
  | width + 1, n => UInt8.ofNat n :: littleEndian width (n / 256)

/-- The number a little-endian byte string denotes. -/
def ofLittleEndian : List UInt8 → Nat
  | [] => 0
  | b :: bs => b.toNat + 256 * ofLittleEndian bs

@[simp] theorem length_littleEndian (width n : Nat) : (littleEndian width n).length = width := by
  induction width generalizing n with
  | zero => rfl
  | succ width ih => simp [littleEndian, ih]

theorem ofLittleEndian_littleEndian {width n : Nat} (h : n < 256 ^ width) :
    ofLittleEndian (littleEndian width n) = n := by
  induction width generalizing n with
  | zero =>
    simp only [Nat.pow_zero, Nat.lt_one_iff] at h
    simp [littleEndian, ofLittleEndian, h]
  | succ width ih =>
    have hdiv : n / 256 < 256 ^ width := by
      rw [Nat.pow_succ] at h
      exact Nat.div_lt_of_lt_mul (by omega)
    simp only [littleEndian, ofLittleEndian, ih hdiv, UInt8.toNat_ofNat']
    omega

theorem ofLittleEndian_lt (bytes : List UInt8) : ofLittleEndian bytes < 256 ^ bytes.length := by
  induction bytes with
  | nil => simp [ofLittleEndian]
  | cons b bs ih =>
    have hb := b.toNat_lt
    simp only [ofLittleEndian, List.length_cons, Nat.pow_succ]
    omega

theorem littleEndian_ofLittleEndian (bytes : List UInt8) :
    littleEndian bytes.length (ofLittleEndian bytes) = bytes := by
  induction bytes with
  | nil => rfl
  | cons b bs ih =>
    have hb := b.toNat_lt
    have hlow : UInt8.ofNat (b.toNat + 256 * ofLittleEndian bs) = b := by
      apply UInt8.toNat.inj
      rw [UInt8.toNat_ofNat']
      omega
    have hhigh : (b.toNat + 256 * ofLittleEndian bs) / 256 = ofLittleEndian bs := by omega
    simp only [List.length_cons, ofLittleEndian, littleEndian, hlow, hhigh, ih]

/-! ### Writers -/

/-- What a writer produces: the bytes, or the error of the first step that failed. -/
inductive Output (ε : Type) where
  | ok (bytes : List UInt8)
  | error (e : ε)

namespace Output

variable {ε α : Type}

/-- The outcome of a writer as the result of a computation. -/
def toExcept : Output ε → Except ε (List UInt8)
  | .ok bytes => .ok bytes
  | .error e => .error e

/-- Bytes that were computed. -/
def ofExcept : Except ε (List UInt8) → Output ε
  | .ok bytes => .ok bytes
  | .error e => .error e

/-- Write one thing after the other. -/
protected def append : Output ε → Output ε → Output ε
  | .ok front, .ok back => .ok (front ++ back)
  | .ok _, .error e => .error e
  | .error e, _ => .error e

instance : Append (Output ε) := ⟨Output.append⟩

/-- Write every element of a list. -/
def each (w : α → Output ε) : List α → Output ε
  | [] => .ok []
  | a :: as => w a ++ each w as

@[simp] theorem toExcept_eq_ok {x : Output ε} {bs : List UInt8} :
    x.toExcept = .ok bs ↔ x = .ok bs := by
  cases x <;> simp [toExcept]

@[simp] theorem ofExcept_eq_ok {x : Except ε (List UInt8)} {bs : List UInt8} :
    ofExcept x = .ok bs ↔ x = .ok bs := by
  cases x <;> simp [ofExcept]

@[simp] theorem ofExcept_eq_error {x : Except ε (List UInt8)} {e : ε} :
    ofExcept x = .error e ↔ x = .error e := by
  cases x <;> simp [ofExcept]

theorem append_eq_ok {x y : Output ε} {bs : List UInt8} :
    x ++ y = .ok bs ↔ ∃ front back, x = .ok front ∧ y = .ok back ∧ bs = front ++ back := by
  show Output.append x y = .ok bs ↔ _
  rcases x with front | e
  · rcases y with back | e
    · simp [Output.append, eq_comm]
    · simp [Output.append]
  · simp [Output.append]

theorem each_eq_ok {w : α → Output ε} {as : List α} {bs : List UInt8} :
    each w as = .ok bs ↔ ∃ parts : List (List UInt8),
      List.Forall₂ (fun a part => w a = .ok part) as parts ∧ bs = parts.flatten := by
  induction as generalizing bs with
  | nil =>
    constructor
    · intro h
      exact ⟨[], .nil, by simpa [each] using h.symm⟩
    · rintro ⟨parts, hparts, rfl⟩
      cases hparts
      rfl
  | cons a as ih =>
    simp only [each, append_eq_ok, ih]
    constructor
    · rintro ⟨front, back, ha, ⟨parts, hparts, rfl⟩, rfl⟩
      exact ⟨front :: parts, .cons ha hparts, by simp⟩
    · rintro ⟨parts, hparts, rfl⟩
      cases hparts with
      | @cons _ front _ parts' ha hparts' =>
        exact ⟨front, parts'.flatten, ha, ⟨parts', hparts', rfl⟩, by simp⟩

end Output

/-! ### Readers that undo writers -/

/-- The reader `r` undoes the writer `w`: it accepts exactly what `w` writes for the values
    with `P`, and returns these values. -/
def Undoes {ε α : Type} (r : Reader ε α) (w : α → Output ε) (P : α → Prop) : Prop :=
  Recognises r (fun a bytes => P a ∧ w a = .ok bytes)

namespace Undoes

variable {ε α β : Type} {r : Reader ε α} {w : α → Output ε} {P Q : α → Prop}

/-- Two descriptions of the accepted values. -/
theorem congr (h : Undoes r w P) (hPQ : ∀ a, P a ↔ Q a) : Undoes r w Q :=
  Recognises.congr h fun a bytes => by rw [hPQ a]

/-- The first field of a record: the rest of the reader knows the field just read. -/
theorem first {R : β → Prop} (proj : β → α) {k : α → Reader ε β} {w' : β → Output ε}
    (hr : Undoes r w P) (hk : ∀ a, Undoes (k a) w' fun b => proj b = a ∧ R b) :
    Undoes (r >>= k) (fun b => w (proj b) ++ w' b) fun b => P (proj b) ∧ R b := by
  refine Recognises.congr (hr.bind hk) fun b bytes => ?_
  rw [Output.append_eq_ok]
  constructor
  · rintro ⟨a, front, back, ⟨hP, hw⟩, ⟨⟨rfl, hR⟩, hw'⟩, rfl⟩
    exact ⟨⟨hP, hR⟩, front, back, hw, hw', rfl⟩
  · rintro ⟨⟨hP, hR⟩, front, back, hw, hw', rfl⟩
    exact ⟨proj b, front, back, ⟨hP, hw⟩, ⟨⟨rfl, hR⟩, hw'⟩, rfl⟩

/-- A further field.  `before` says what is known of the record from the fields read so far. -/
theorem field {before R : β → Prop} (proj : β → α) {k : α → Reader ε β} {w' : β → Output ε}
    (hr : Undoes r w P) (hk : ∀ a, Undoes (k a) w' fun b => (before b ∧ proj b = a) ∧ R b) :
    Undoes (r >>= k) (fun b => w (proj b) ++ w' b) fun b => before b ∧ P (proj b) ∧ R b := by
  have hfirst : Undoes (r >>= k) (fun b => w (proj b) ++ w' b)
      fun b => P (proj b) ∧ before b ∧ R b :=
    hr.first proj fun a => (hk a).congr fun b => by tauto
  exact hfirst.congr fun b => and_left_comm

/-- The last field of a record, followed by checks only. -/
theorem lastThen {before C : β → Prop} (proj : β → α) {k : α → Reader ε β} (hr : Undoes r w P)
    (hk : ∀ a, Recognises (k a) fun b bytes => ((before b ∧ proj b = a) ∧ C b) ∧ bytes = []) :
    Undoes (r >>= k) (fun b => w (proj b)) fun b => before b ∧ P (proj b) ∧ C b := by
  refine Recognises.congr (Recognises.bind hr hk) fun b bytes => ?_
  constructor
  · rintro ⟨a, front, back, ⟨hP, hw⟩, ⟨⟨⟨hbefore, rfl⟩, hC⟩, rfl⟩, rfl⟩
    exact ⟨⟨hbefore, hP, hC⟩, by simpa using hw⟩
  · rintro ⟨⟨hbefore, hP, hC⟩, hw⟩
    exact ⟨proj b, bytes, [], ⟨hP, hw⟩, ⟨⟨⟨hbefore, rfl⟩, hC⟩, rfl⟩, by simp⟩

/-- The last field of a record. -/
theorem last {before : β → Prop} (proj : β → α) (make : α → β) (hr : Undoes r w P)
    (hmake : ∀ a b, before b ∧ proj b = a ↔ b = make a) :
    Undoes (r >>= fun a => pure (make a)) (fun b => w (proj b)) fun b => before b ∧ P (proj b) := by
  have h : Undoes (r >>= fun a => pure (make a)) (fun b => w (proj b))
      fun b => before b ∧ P (proj b) ∧ True :=
    hr.lastThen proj fun a => (Recognises.pure (make a)).congr fun b bytes => by
      rw [hmake, and_true, Format.unit]
  exact h.congr fun b => by rw [and_true]

/-- The only field of a record. -/
theorem only (proj : β → α) {make : α → β} (hr : Undoes r w P)
    (hmake : ∀ a b, proj b = a ↔ b = make a) :
    Undoes (r >>= fun a => pure (make a)) (fun b => w (proj b)) fun b => P (proj b) := by
  have h : Undoes (r >>= fun a => pure (make a)) (fun b => w (proj b))
      fun b => True ∧ P (proj b) :=
    hr.last proj make fun a b => by rw [true_and, hmake]
  exact h.congr fun b => by rw [true_and]

/-- A sum type: a tag byte says how to go on. -/
theorem tagged {byte : Reader ε UInt8} {k : UInt8 → Reader ε α}
    (hbyte : Undoes byte (fun tag => .ok [tag]) fun _ => True)
    (hk : ∀ tag, Recognises (k tag) fun a bytes => P a ∧ w a = .ok (tag :: bytes))
    (hw : ∀ a, w a ≠ .ok []) : Undoes (byte >>= k) w P := by
  refine Recognises.congr (Recognises.bind hbyte hk) fun a bytes => ?_
  constructor
  · rintro ⟨tag, front, back, ⟨-, htag⟩, h, rfl⟩
    cases htag
    exact h
  · rintro ⟨hP, h⟩
    cases bytes with
    | nil => exact absurd h (hw a)
    | cons tag back => exact ⟨tag, [tag], back, ⟨trivial, rfl⟩, ⟨hP, h⟩, rfl⟩

theorem location_bind {k : Nat → Reader ε α} (hk : ∀ n, Undoes (k n) w P) :
    Undoes (location >>= k) w P := Recognises.location_bind hk

/-- As many values as the list has. -/
theorem many (h : Undoes r w P) (n : Nat) :
    Undoes (Wire.many r n) (Output.each w) fun as => as.length = n ∧ ∀ a ∈ as, P a := by
  refine Recognises.congr (Recognises.many h n) fun as bytes => ?_
  rw [Format.many_iff, Output.each_eq_ok]
  simp only [List.forall₂_and_left, exists_and_left, and_assoc]

/-- The arguments of a constructor, one after the other: the first. -/
theorem argument {γ : Type} (hr : Undoes r w fun _ => True) {k : α → Reader ε β} {make : α → γ → β}
    {w' : γ → Output ε}
    (hk : ∀ a, Recognises (k a) fun b bytes => ∃ x, b = make a x ∧ w' x = .ok bytes) :
    Recognises (r >>= k) fun b bytes =>
      ∃ x : α × γ, b = make x.1 x.2 ∧ w x.1 ++ w' x.2 = .ok bytes := by
  refine (Recognises.bind hr hk).congr fun b bytes => ?_
  simp only [Output.append_eq_ok]
  constructor
  · rintro ⟨a, front, back, ⟨-, hw⟩, ⟨x, rfl, hw'⟩, rfl⟩
    exact ⟨(a, x), rfl, front, back, hw, hw', rfl⟩
  · rintro ⟨⟨a, x⟩, rfl, front, back, hw, hw', rfl⟩
    exact ⟨a, front, back, ⟨trivial, hw⟩, ⟨x, rfl, hw'⟩, rfl⟩

/-- The arguments of a constructor, one after the other: the last. -/
theorem lastArgument (hr : Undoes r w fun _ => True) (make : α → β) :
    Recognises (r >>= fun a => pure (make a)) fun b bytes =>
      ∃ x, b = make x ∧ w x = .ok bytes := by
  refine (Recognises.bind hr fun a => .pure (make a)).congr fun b bytes => ?_
  constructor
  · rintro ⟨a, front, back, ⟨-, hw⟩, ⟨rfl, rfl⟩, rfl⟩
    exact ⟨a, rfl, by simpa using hw⟩
  · rintro ⟨a, rfl, hw⟩
    exact ⟨a, bytes, [], ⟨trivial, hw⟩, ⟨rfl, rfl⟩, by simp⟩

end Undoes

end Wire
