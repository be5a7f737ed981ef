import Mathlib.Logic.Relation
import RivetLua.Stdlib.PackRoundTrip

namespace RivetLua.Stdlib.Pack

open RivetLua.Core
open Check (reject bind_eq_ok then_eq_ok reject_eq_ok ok_bind error_bind reject_bind_of
  reject_bind_of_not)
open Utf8 (maxSize)

/-!
# Stdlib — the two passes of `string.unpack`

`unpack` reads its data twice.  The checking pass goes over the whole format first; the value pass
then takes every position from the same format without a check of its own.  Here the slices and the
sums of both passes are those of the machine: a slice outside the data panics, and so does a sum of
positions that leaves `usize`.  The data is a slice, which has at most `isize::MAX` bytes.

* `index`, `plus`, `minus` — slices, sums and differences that may panic;
* `pass`, `read`, `unpackAt` — the two passes and the call over them;
* `passStep_spec`, `readStep_spec` — one round of each pass;
* `unpack_twoPass` — what the checking pass accepts, the value pass reads.
-/

/-! ### Slices and sums that panic -/

/-- How a call stops: its arguments are refused, or the machine panics. -/
inductive Stop where
  | refused (error : PackError)
  | panicked
  deriving DecidableEq, Repr

/-- A result that does not panic. -/
def lift {β : Type} : Except PackError β → Except Stop β
  | .ok b => .ok b
  | .error e => .error (.refused e)

@[simp] theorem lift_ok {β : Type} (b : β) : lift (.ok b : Except PackError β) = .ok b := rfl

@[simp] theorem lift_error {β : Type} (e : PackError) :
    lift (.error e : Except PackError β) = .error (.refused e) := rfl

theorem lift_ne_panicked {β : Type} (x : Except PackError β) : lift x ≠ .error .panicked := by
  cases x <;> simp

theorem lift_eq_ok {β : Type} {x : Except PackError β} {b : β} :
    lift x = .ok b ↔ x = .ok b := by
  cases x <;> simp

theorem lift_bind {β γ : Type} (x : Except PackError β) (f : β → Except PackError γ) :
    lift (x >>= f) = lift x >>= fun b => lift (f b) := by
  cases x <;> rfl

theorem lift_reject (p : Prop) [Decidable p] (e : PackError) :
    lift (reject p e) = reject p (.refused e) := by
  unfold reject
  split <;> rfl

/-- `data[first..last]`. -/
def index (data : List UInt8) (first last : Nat) : Except Stop (List UInt8) :=
  if first ≤ last ∧ last ≤ data.length then .ok ((data.drop first).take (last - first))
  else .error .panicked

/-- `a + b` on `usize`. -/
def plus (a b : Nat) : Except Stop Nat := if a + b < 2 ^ 64 then .ok (a + b) else .error .panicked

/-- `a - b` on `usize`. -/
def minus (a b : Nat) : Except Stop Nat := if b ≤ a then .ok (a - b) else .error .panicked

theorem plus_of {a b : Nat} (h : a + b < 2 ^ 64) : plus a b = .ok (a + b) := if_pos h

theorem minus_of {a b : Nat} (h : b ≤ a) : minus a b = .ok (a - b) := if_pos h

theorem index_of {data : List UInt8} {first size : Nat} (h : first + size ≤ data.length) :
    index data first (first + size) = .ok (slice data first size) := by
  rw [index, if_pos ⟨Nat.le_add_right _ _, h⟩, Nat.add_sub_cancel_left]
  rfl

/-! ### The two passes -/

/-- The loop of both passes. -/
def drive {σ : Type} (target : Target) (step : Spec → Nat × σ → Except Stop (Nat × σ)) :
    Nat → Parser → Nat × σ → Except Stop (Nat × σ)
  | 0, _, state => .ok state
  | fuel + 1, p, state => do
    match ← lift (p.next target state.1) with
    | none => .ok state
    | some (spec, p) =>
      let state ← step spec state
      drive target step fuel p state

/-- The bytes of an option behind its padding: `data[position..position + spec.size]`. -/
def fieldBytes (spec : Spec) (data : List UInt8) (position : Nat) : Except Stop (List UInt8) := do
  let last ← plus position spec.size
  index data position last

/-- The distance to the zero behind a string: `data[position..].iter().position(..)`. -/
def zeroAt (data : List UInt8) (position : Nat) : Except Stop Nat := do
  let rest ← index data position data.length
  match rest.findIdx? (· == 0) with
  | none => .error (.refused .argument)
  | some length => .ok length

/-- The `match` of `unpack_pass`. -/
def passFieldAt (spec : Spec) (data : List UInt8) (position count : Nat) :
    Except Stop (Nat × Nat) :=
  match spec.kind with
  | .int signed => do
    let bytes ← fieldBytes spec data position
    let _ ← lift (readInteger bytes spec.little signed)
    .ok (position, count + 1)
  | .float | .char => .ok (position, count + 1)
  | .string => do
    let bytes ← fieldBytes spec data position
    let length ← lift (readInteger bytes spec.little false)
    let room ← minus data.length position
    let room ← minus room spec.size
    reject (length.toBitVec.toNat > room) (.refused .argument)
    let position ← plus position length.toBitVec.toNat
    .ok (position, count + 1)
  | .zero => do
    let length ← zeroAt data position
    let advance ← plus length 1
    reject (position + advance ≥ 2 ^ 64) (.refused .argument)
    .ok (position + advance, count + 1)
  | .pad | .align | .noop => .ok (position, count)

variable {α : Type} (c : Context α)

/-- One round of `unpack_pass`. -/
def passStepAt (data : List UInt8) (spec : Spec) (state : Nat × Nat) : Except Stop (Nat × Nat) := do
  reject (spec.pad + spec.size ≥ 2 ^ 64) (.refused .argument)
  -- `saturating_sub`
  reject (spec.pad + spec.size > data.length - state.1) (.refused .argument)
  let position ← plus state.1 spec.pad
  let (position, count) ← passFieldAt spec data position state.2
  let position ← lift (checkedSize c position spec.size)
  reject (count ≥ maxResults) (.refused .argument)
  .ok (position, count)

/-- `unpack_pass`: the position it ends at and the number of values. -/
def pass (format data : List UInt8) (initial : Nat) : Except Stop (Nat × Nat) :=
  drive c.target (passStepAt c data) format.length (Parser.new c.target c.profile format)
    (initial, 0)

/-- A floating-point number: the bytes fill an array of four or of eight bytes. -/
def readFloatAt (spec : Spec) (bytes : List UInt8) : Except Stop F64 := do
  -- `copy_from_slice` panics unless the lengths agree
  reject (spec.little = true ∧ bytes.length ≠ (if spec.size = 4 then 4 else 8)) .panicked
  .ok (readFloat c spec bytes)

/-- The `match` of the value pass. -/
def readFieldAt (spec : Spec) (data : List UInt8) (position : Nat) (output : List Item) :
    Except Stop (Nat × List Item) :=
  match spec.kind with
  | .int signed => do
    let bytes ← fieldBytes spec data position
    let n ← lift (readInteger bytes spec.little signed)
    .ok (position, output ++ [.integer n])
  | .float => do
    let bytes ← fieldBytes spec data position
    let x ← readFloatAt c spec bytes
    .ok (position, output ++ [.float x])
  | .char => do
    let last ← plus position spec.size
    let bytes ← index data position last
    .ok (position, output ++ [.string bytes])
  | .string => do
    let bytes ← fieldBytes spec data position
    let length ← lift (readInteger bytes spec.little false)
    let position ← plus position length.toBitVec.toNat
    let first ← minus position length.toBitVec.toNat
    let first ← plus first spec.size
    let last ← plus position spec.size
    let bytes ← index data first last
    .ok (position, output ++ [.string bytes])
  | .zero => do
    let length ← zeroAt data position
    let advance ← plus length 1
    let position ← plus position advance
    let first ← minus position length
    let first ← minus first 1
    let last ← minus position 1
    let bytes ← index data first last
    .ok (position, output ++ [.string bytes])
  | .pad | .align | .noop => .ok (position, output)

/-- One round of the value pass. -/
def readStepAt (data : List UInt8) (spec : Spec) (state : Nat × List Item) :
    Except Stop (Nat × List Item) := do
  let position ← plus state.1 spec.pad
  let (position, output) ← readFieldAt c spec data position state.2
  let position ← plus position spec.size
  .ok (position, output)

/-- The value pass: the position it ends at and the values. -/
def read (format data : List UInt8) (initial : Nat) : Except Stop (Nat × List Item) :=
  drive c.target (readStepAt c data) format.length (Parser.new c.target c.profile format)
    (initial, [])

/-- `unpack`. -/
def unpackAt (format data : List UInt8) (init : Int64) : Except Stop (List Item) := do
  let initial := startPosition init data.length - 1
  reject (initial > data.length) (.refused .argument)
  let _ ← pass c format data initial
  let (position, output) ← read c format data initial
  let position ← plus position 1
  reject (position ≥ 2 ^ 63) (.refused .overflow)
  .ok (output ++ [.integer (Int64.ofNat position)])

/-! ### One round -/

section Round

variable {spec : Spec} {data : List UInt8} {position count : Nat}

theorem fieldBytes_of (hdata : data.length < 2 ^ 63) (hroom : position + spec.size ≤ data.length) :
    fieldBytes spec data position = .ok (slice data position spec.size) := by
  rw [fieldBytes, plus_of (by omega), ok_bind, index_of hroom]

theorem zeroAt_of (hroom : position ≤ data.length) :
    zeroAt data position = lift (readZero data position) := by
  have hindex : index data position data.length = .ok (data.drop position) := by
    rw [index, if_pos ⟨hroom, le_refl _⟩, List.take_of_length_le (by simp)]
  rw [zeroAt, hindex, ok_bind, readZero]
  cases (data.drop position).findIdx? (· == 0) <;> rfl

/-- A zero that is found lies in the data. -/
theorem readZero_lt {length : Nat} (h : readZero data position = .ok length) :
    position + length < data.length := by
  rw [readZero] at h
  cases hfind : (data.drop position).findIdx? (· == 0) with
  | none =>
    rw [hfind] at h
    cases h
  | some found =>
    rw [hfind] at h
    cases h
    have hlt := (List.findIdx?_eq_some_iff_getElem.mp hfind).1
    rw [List.length_drop] at hlt
    omega

/-- What the checking pass has found out before it looks at an option. -/
structure Room (spec : Spec) (data : List UInt8) (position : Nat) : Prop where
  data_lt : data.length < 2 ^ 63
  field_le : position + spec.size ≤ data.length

/-- The checking pass takes no slice outside the data. -/
theorem passFieldAt_eq (room : Room spec data position) :
    passFieldAt spec data position count = lift (passField spec data position count) := by
  have hdata := room.data_lt
  have hroom := room.field_le
  have hbytes := fieldBytes_of hdata hroom
  cases hkind : spec.kind with
  | int signed => simp only [passFieldAt, passField, hkind, hbytes, ok_bind, lift_bind, lift_ok]
  | float | char | pad | align | noop => simp only [passFieldAt, passField, hkind, lift_ok]
  | string =>
    simp only [passFieldAt, passField, readLength, hkind, hbytes, ok_bind]
    cases hread : readInteger (slice data position spec.size) spec.little false with
    | error e => rfl
    | ok length =>
      rw [minus_of (by omega)]
      simp only [lift_ok, ok_bind]
      rw [minus_of (by omega), ok_bind, lift_bind, lift_reject]
      by_cases hover : length.toBitVec.toNat > data.length - position - spec.size
      · rw [reject_bind_of hover, reject_bind_of hover]
      · rw [reject_bind_of_not hover, reject_bind_of_not hover, plus_of (by omega)]
        rfl
  | zero =>
    have hzero : zeroAt data position = lift (readZero data position) := zeroAt_of (by omega)
    simp only [passFieldAt, passField, hkind, hzero]
    cases hread : readZero data position with
    | error e => rfl
    | ok length =>
      have hlt := readZero_lt hread
      simp only [lift_ok, ok_bind]
      rw [plus_of (by omega), ok_bind, lift_bind, lift_reject]
      rfl

/-- The value pass takes what the checking pass has accepted, and ends at the same position. -/
theorem readFieldAt_spec (room : Room spec data position) (hsized : spec.kind.Sized spec.size)
    {position' count' : Nat} (h : passField spec data position count = .ok (position', count'))
    (output : List Item) :
    position' + spec.size ≤ data.length ∧ ∃ items, count' = count + items.length
      ∧ readField c spec data position output = .ok (position', output ++ items)
      ∧ readFieldAt c spec data position output = .ok (position', output ++ items) := by
  have hdata := room.data_lt
  have hroom := room.field_le
  have hbytes := fieldBytes_of hdata hroom
  cases hkind : spec.kind with
  | int signed =>
    simp only [passField, hkind] at h
    obtain ⟨n, hread, h⟩ := bind_eq_ok.mp h
    cases h
    refine ⟨hroom, [.integer n], rfl, ?_, ?_⟩
    · simp only [readField, hkind, hread, ok_bind]
    · simp only [readFieldAt, hkind, hbytes, ok_bind, hread, lift_ok]
  | float =>
    simp only [passField, hkind] at h
    cases h
    rw [hkind] at hsized
    have hfill : (slice data position spec.size).length = if spec.size = 4 then 4 else 8 := by
      rw [slice, List.length_take, List.length_drop]
      obtain hsize | hsize := hsized <;> rw [hsize] at hroom ⊢ <;> simp <;> omega
    have hfloat : readFloatAt c spec (slice data position spec.size)
        = .ok (readFloat c spec (slice data position spec.size)) := by
      rw [readFloatAt, reject_bind_of_not (fun hne => hne.2 hfill)]
    refine ⟨hroom, [.float (readFloat c spec (slice data position spec.size))], rfl, ?_, ?_⟩
    · simp only [readField, hkind]
    · simp only [readFieldAt, hkind, hbytes, ok_bind, hfloat]
  | char =>
    simp only [passField, hkind] at h
    cases h
    refine ⟨hroom, [.string (slice data position spec.size)], rfl, ?_, ?_⟩
    · simp only [readField, hkind]
    · simp only [readFieldAt, hkind]
      rw [plus_of (by omega), ok_bind, index_of hroom, ok_bind]
  | string =>
    simp only [passField, readLength, hkind] at h
    obtain ⟨length, hread, h⟩ := bind_eq_ok.mp h
    obtain ⟨n, hn, hread⟩ := bind_eq_ok.mp hread
    cases hread
    obtain ⟨hover, h⟩ := then_eq_ok.mp h
    rw [reject_eq_ok] at hover
    cases h
    refine ⟨by omega, [.string (slice data (position + spec.size) n.toBitVec.toNat)], rfl, ?_, ?_⟩
    · simp only [readField, readLength, hkind, hn, ok_bind]
    · simp only [readFieldAt, hkind, hbytes, ok_bind, hn, lift_ok]
      have hlast : position + n.toBitVec.toNat + spec.size
          = position + spec.size + n.toBitVec.toNat := by omega
      rw [plus_of (by omega), ok_bind, minus_of (by omega), ok_bind, Nat.add_sub_cancel,
        plus_of (by omega), ok_bind, plus_of (by omega), ok_bind, hlast, index_of (by omega),
        ok_bind]
  | zero =>
    simp only [passField, hkind] at h
    obtain ⟨length, hread, h⟩ := bind_eq_ok.mp h
    obtain ⟨-, h⟩ := then_eq_ok.mp h
    cases h
    have hlt := readZero_lt hread
    have hsize : spec.size = 0 := by
      rw [hkind] at hsized
      exact hsized
    refine ⟨by omega, [.string (slice data position length)], rfl, ?_, ?_⟩
    · simp only [readField, hkind, hread, ok_bind]
    · have hfirst : position + (length + 1) - length - 1 = position := by omega
      have hlast : position + (length + 1) - 1 = position + length := by omega
      have hzero : zeroAt data position = lift (readZero data position) := zeroAt_of (by omega)
      simp only [readFieldAt, hkind, hzero, hread, lift_ok, ok_bind]
      rw [plus_of (by omega), ok_bind, plus_of (by omega), ok_bind, minus_of (by omega), ok_bind,
        minus_of (by omega), ok_bind, minus_of (by omega), ok_bind, hfirst, hlast,
        index_of (by omega), ok_bind]
  | pad | align | noop =>
    simp only [passField, hkind] at h
    cases h
    refine ⟨hroom, [], rfl, ?_, ?_⟩
    · simp only [readField, hkind, List.append_nil]
    · simp only [readFieldAt, hkind, List.append_nil]

/-- **One round of the checking pass** takes no slice outside the data. -/
theorem passStepAt_eq (hdata : data.length < 2 ^ 63) (hposition : position ≤ data.length) :
    passStepAt c data spec (position, count) = lift (passStep c data spec (position, count)) := by
  rw [passStepAt, passStep, lift_bind, lift_reject]
  by_cases hsum : spec.pad + spec.size ≥ 2 ^ 64
  · rw [reject_bind_of hsum, reject_bind_of hsum]
  rw [reject_bind_of_not hsum, reject_bind_of_not hsum, lift_bind, lift_reject]
  by_cases hover : spec.pad + spec.size > data.length - position
  · rw [reject_bind_of hover, reject_bind_of hover]
  rw [reject_bind_of_not hover, reject_bind_of_not hover, plus_of (by omega), ok_bind,
    passFieldAt_eq ⟨hdata, by omega⟩, lift_bind]
  cases passField spec data (position + spec.pad) count with
  | error e => rfl
  | ok field =>
    obtain ⟨before, total⟩ := field
    simp only [lift_ok, ok_bind, lift_bind]
    cases checkedSize c before spec.size with
    | error e => rfl
    | ok last => simp only [lift_ok, ok_bind, lift_reject]

theorem passStep_eq_ok {position' count' : Nat}
    (h : passStep c data spec (position, count) = .ok (position', count')) :
    spec.pad + spec.size ≤ data.length - position ∧ ∃ before, position' = before + spec.size
      ∧ passField spec data (position + spec.pad) count = .ok (before, count') := by
  obtain ⟨-, h⟩ := then_eq_ok.mp h
  obtain ⟨hroom, h⟩ := then_eq_ok.mp h
  rw [reject_eq_ok, not_lt] at hroom
  obtain ⟨⟨before, total⟩, hfield, h⟩ := bind_eq_ok.mp h
  obtain ⟨last, hlast, h⟩ := bind_eq_ok.mp h
  obtain ⟨rfl, -⟩ := checkedSize_eq_ok.mp hlast
  obtain ⟨-, h⟩ := then_eq_ok.mp h
  cases h
  exact ⟨hroom, before, rfl, hfield⟩

/-- **One round of the value pass** after the same round of the checking pass. -/
theorem readStepAt_spec (hdata : data.length < 2 ^ 63) (hposition : position ≤ data.length)
    (hsized : spec.kind.Sized spec.size) {position' count' : Nat}
    (h : passStep c data spec (position, count) = .ok (position', count')) (output : List Item) :
    position' ≤ data.length ∧ ∃ items, count' = count + items.length
      ∧ readStep c data spec (position, output) = .ok (position', output ++ items)
      ∧ readStepAt c data spec (position, output) = .ok (position', output ++ items) := by
  obtain ⟨hroom, before, rfl, hfield⟩ := passStep_eq_ok c h
  obtain ⟨hlast, items, hcount, hlax, hread⟩ :=
    readFieldAt_spec c ⟨hdata, by omega⟩ hsized hfield output
  refine ⟨hlast, items, hcount, ?_, ?_⟩
  · simp only [readStep, hlax, ok_bind]
  · simp only [readStepAt]
    rw [plus_of (by omega), ok_bind, hread, ok_bind]
    simp only
    rw [plus_of (by omega), ok_bind]

end Round

/-! ### The options that overrun the data -/

/-- An option needs bytes behind the end of the data. -/
def Spec.Overruns (spec : Spec) (data : List UInt8) (position : Nat) : Prop :=
  data.length < position + spec.pad + spec.size ∨
    match spec.kind with
    | .string => ∃ length, readLength spec data (position + spec.pad) = .ok length
        ∧ data.length < position + spec.pad + spec.size + length
    | .zero => 0 ∉ data.drop (position + spec.pad)
    | _ => False

/-- The checking pass stops at an option that overruns the data. -/
theorem passStep_of_overruns {spec : Spec} {data : List UInt8} {position count : Nat}
    (hposition : position ≤ data.length) (h : spec.Overruns data position) :
    passStep c data spec (position, count) = .error .argument := by
  rw [passStep]
  by_cases hsum : spec.pad + spec.size ≥ 2 ^ 64
  · rw [reject_bind_of hsum]
  rw [reject_bind_of_not hsum]
  by_cases hover : spec.pad + spec.size > data.length - position
  · rw [reject_bind_of hover]
  rw [reject_bind_of_not hover]
  have hfield : passField spec data (position + spec.pad) count = .error .argument := by
    obtain hbehind | hkind := h
    · omega
    · cases hk : spec.kind with
      | string =>
        rw [hk] at hkind
        obtain ⟨length, hlength, hlong⟩ := hkind
        simp only [passField, hk, hlength, ok_bind]
        rw [reject_bind_of (by omega)]
      | zero =>
        rw [hk] at hkind
        have hnone : (data.drop (position + spec.pad)).findIdx? (· == 0) = none := by
          rw [List.findIdx?_eq_none_iff]
          intro byte hbyte
          rw [beq_eq_false_iff_ne]
          rintro rfl
          exact hkind hbyte
        simp only [passField, hk, readZero, hnone, error_bind]
      | int _ | float | char | pad | align | noop =>
        rw [hk] at hkind
        exact hkind.elim
  simp only [hfield, error_bind]

/-! ### Whole formats -/

section Run

variable {data : List UInt8}

theorem Parser.next_sized {target : Target} {p p' : Parser} {total : Nat} {spec : Spec}
    (h : p.next target total = .ok (some (spec, p'))) : spec.kind.Sized spec.size := by
  obtain ⟨e, he⟩ | hnone | ⟨kind, size, little, q, hsized, pad, hsome⟩ := @next_cases target p
  · rw [he] at h
    cases h
  · rw [hnone] at h
    cases h
  · rw [hsome] at h
    cases h
    exact hsized

/-- **The checking pass** never panics. -/
theorem drive_pass (hdata : data.length < 2 ^ 63) (fuel : Nat) (p : Parser) {position : Nat}
    (hposition : position ≤ data.length) (count : Nat) :
    drive c.target (passStepAt c data) fuel p (position, count)
      = lift (Parser.each c.target Prod.fst (passStep c data) fuel p (position, count)) := by
  induction fuel generalizing p position count with
  | zero => rfl
  | succ fuel ih =>
    rw [drive, Parser.each, lift_bind]
    cases hnext : p.next c.target position with
    | error e => rfl
    | ok next =>
      obtain _ | ⟨spec, p'⟩ := next
      · rfl
      · simp only [lift_ok, ok_bind]
        rw [passStepAt_eq c hdata hposition, lift_bind]
        cases hstep : passStep c data spec (position, count) with
        | error e => rfl
        | ok state =>
          obtain ⟨position', count'⟩ := state
          simp only [lift_ok, ok_bind]
          exact ih p' (readStepAt_spec c hdata hposition (Parser.next_sized hnext) hstep []).1 count'

/-- **The value pass** reads whatever the checking pass has accepted. -/
theorem drive_read (hdata : data.length < 2 ^ 63) {fuel : Nat} {p : Parser} {position count : Nat}
    (hposition : position ≤ data.length) {last total : Nat}
    (h : Parser.each c.target Prod.fst (passStep c data) fuel p (position, count)
      = .ok (last, total)) (output : List Item) :
    last ≤ data.length ∧ ∃ items, total = count + items.length
      ∧ Parser.each c.target Prod.fst (readStep c data) fuel p (position, output)
          = .ok (last, output ++ items)
      ∧ drive c.target (readStepAt c data) fuel p (position, output)
          = .ok (last, output ++ items) := by
  induction fuel generalizing p position count output with
  | zero =>
    cases h
    exact ⟨hposition, [], rfl, by rw [Parser.each, List.append_nil],
      by rw [drive, List.append_nil]⟩
  | succ fuel ih =>
    rw [Parser.each] at h
    obtain ⟨next, hnext, h⟩ := bind_eq_ok.mp h
    obtain _ | ⟨spec, p'⟩ := next
    · cases h
      refine ⟨hposition, [], rfl, ?_, ?_⟩
      · rw [Parser.each, hnext, ok_bind, List.append_nil]
      · rw [drive, hnext, lift_ok, ok_bind, List.append_nil]
    · obtain ⟨⟨position', count'⟩, hstep, h⟩ := bind_eq_ok.mp h
      obtain ⟨hposition', items, rfl, hlax, hread⟩ :=
        readStepAt_spec c hdata hposition (Parser.next_sized hnext) hstep output
      obtain ⟨hlast, more, rfl, hlaxes, hreads⟩ := ih hposition' h (output ++ items)
      rw [List.append_assoc] at hlaxes hreads
      refine ⟨hlast, items ++ more, by rw [List.length_append, Nat.add_assoc], ?_, ?_⟩
      · rw [Parser.each, hnext, ok_bind]
        simp only [hlax, ok_bind, hlaxes]
      · rw [drive, hnext, lift_ok, ok_bind]
        simp only [hread, ok_bind, hreads]

/-- A round of the checking pass, from one option to the next. -/
def Round (data : List UInt8) (state state' : Parser × Nat × Nat) : Prop :=
  ∃ spec, state.1.next c.target state.2.1 = .ok (some (spec, state'.1))
    ∧ passStepAt c data spec state.2 = .ok state'.2

/-- The checking pass stops wherever it meets an option that overruns the data. -/
theorem each_of_overruns (hdata : data.length < 2 ^ 63) {spec : Spec} {q q' : Parser}
    {before total : Nat} {start : Parser × Nat × Nat}
    (hreach : Relation.ReflTransGen (Round c data) start (q, before, total))
    (hposition : start.2.1 ≤ data.length)
    (hnext : q.next c.target before = .ok (some (spec, q'))) (hover : spec.Overruns data before)
    {fuel : Nat} (hfuel : start.1.rest.length ≤ fuel) :
    Parser.each c.target Prod.fst (passStep c data) fuel start.1 start.2 = .error .argument := by
  induction hreach using Relation.ReflTransGen.head_induction_on generalizing fuel with
  | refl =>
    have hless := Parser.next_rest hnext
    obtain _ | fuel := fuel
    · simp only at hfuel
      omega
    · rw [Parser.each, hnext, ok_bind]
      simp only [passStep_of_overruns c hposition hover, error_bind]
  | @head state state' hround _ ih =>
    obtain ⟨p, position, count⟩ := state
    obtain ⟨p', position', count'⟩ := state'
    obtain ⟨option, hoption, hstep⟩ := hround
    simp only at hoption hposition hfuel
    have hless := Parser.next_rest hoption
    rw [passStepAt_eq c hdata hposition, lift_eq_ok] at hstep
    have hposition' := (readStepAt_spec c hdata hposition (Parser.next_sized hoption) hstep []).1
    obtain _ | fuel := fuel
    · omega
    · rw [Parser.each, hoption, ok_bind]
      simp only [hstep, ok_bind]
      exact ih hposition' (by simp only; omega)

/-- The checking pass is the one of `unpackPass`. -/
theorem pass_eq (hdata : data.length < 2 ^ 63) (format : List UInt8) {initial : Nat}
    (hinitial : initial ≤ data.length) :
    pass c format data initial = lift (Parser.each c.target Prod.fst (passStep c data)
      format.length (Parser.new c.target c.profile format) (initial, 0)) :=
  drive_pass c hdata _ _ hinitial 0

/-- The call with its panics is the call without them. -/
theorem unpackAt_eq (hdata : data.length < 2 ^ 63) (format : List UInt8) (init : Int64) :
    unpackAt c format data init = lift (unpack c format data init) := by
  rw [unpackAt, unpack]
  generalize startPosition init data.length - 1 = initial
  rw [lift_bind, lift_reject]
  by_cases hbehind : initial > data.length
  · rw [reject_bind_of hbehind, reject_bind_of hbehind]
  rw [reject_bind_of_not hbehind, reject_bind_of_not hbehind, pass_eq c hdata format (by omega),
    unpackPass]
  cases hpass : Parser.each c.target Prod.fst (passStep c data) format.length
      (Parser.new c.target c.profile format) (initial, 0) with
  | error e => rfl
  | ok state =>
    obtain ⟨last, count⟩ := state
    obtain ⟨hlast, items, -, hlax, hread⟩ := drive_read c hdata (by omega) hpass []
    simp only [lift_ok, ok_bind, read, hread, hlax]
    rw [plus_of (by omega), ok_bind, lift_bind, lift_reject]
    rfl

/-- A call returns what the value pass reads, with the position behind it. -/
theorem unpackAt_of_pass (hdata : data.length < 2 ^ 63) {format : List UInt8} {init : Int64}
    {position count : Nat} (hinitial : startPosition init data.length - 1 ≤ data.length)
    (hpass : pass c format data (startPosition init data.length - 1) = .ok (position, count))
    (hposition : position + 1 < 2 ^ 63) :
    ∃ values, values.length = count
      ∧ unpackAt c format data init
          = .ok (values ++ [.integer (Int64.ofNat (position + 1))]) := by
  have heach := hpass
  rw [pass_eq c hdata format hinitial, lift_eq_ok] at heach
  obtain ⟨hlast, items, hcount, -, hread⟩ := drive_read c hdata hinitial heach []
  refine ⟨items, by rw [hcount, Nat.zero_add], ?_⟩
  simp only [unpackAt]
  rw [reject_bind_of_not (by omega), hpass, ok_bind, read, hread, ok_bind]
  simp only
  rw [plus_of (by omega), ok_bind, reject_bind_of_not (by omega), List.nil_append]

end Run

/-- **Two passes of `string.unpack`.**  For every format, data and start position:

    * the call never panics, and a start position behind the data is refused;
    * where the checking pass succeeds with `count` values, the value pass succeeds with `count`
      values and ends at the same position, which is what the call returns;
    * where an option the checking pass comes to needs bytes behind the data, it reports an
      error. -/
theorem unpack_twoPass (format data : List UInt8) (hdata : data.length < 2 ^ 63) :
    (∀ init, unpackAt c format data init ≠ .error .panicked
      ∧ unpackAt c format data init = lift (unpack c format data init)
      ∧ (data.length < startPosition init data.length - 1 →
          unpackAt c format data init = .error (.refused .argument))
      ∧ ∀ position count, startPosition init data.length - 1 ≤ data.length →
          pass c format data (startPosition init data.length - 1) = .ok (position, count) →
          position + 1 < 2 ^ 63 →
          ∃ values, values.length = count
            ∧ unpackAt c format data init
                = .ok (values ++ [.integer (Int64.ofNat (position + 1))]))
    ∧ ∀ initial ≤ data.length,
      pass c format data initial ≠ .error .panicked
      ∧ (∀ position count, pass c format data initial = .ok (position, count) →
          ∃ values, read c format data initial = .ok (position, values)
            ∧ values.length = count)
      ∧ ∀ p position count spec p',
          Relation.ReflTransGen (Round c data) (Parser.new c.target c.profile format, initial, 0)
            (p, position, count) →
          p.next c.target position = .ok (some (spec, p')) → spec.Overruns data position →
          pass c format data initial = .error (.refused .argument) := by
  constructor
  · intro init
    refine ⟨?_, unpackAt_eq c hdata format init, ?_, ?_⟩
    · rw [unpackAt_eq c hdata format init]
      exact lift_ne_panicked _
    · intro hbehind
      simp only [unpackAt]
      rw [reject_bind_of hbehind]
    · intro position count hinitial hpass hposition
      exact unpackAt_of_pass c hdata hinitial hpass hposition
  · intro initial hinitial
    rw [pass_eq c hdata format hinitial]
    refine ⟨lift_ne_panicked _, ?_, ?_⟩
    · intro position count hpass
      rw [lift_eq_ok] at hpass
      obtain ⟨-, items, hcount, -, hread⟩ := drive_read c hdata hinitial hpass []
      exact ⟨items, hread, by rw [hcount, Nat.zero_add]⟩
    · intro p position count spec p' hreach hnext hover
      have hstop : Parser.each c.target Prod.fst (passStep c data) format.length
          (Parser.new c.target c.profile format) (initial, 0) = .error .argument :=
        each_of_overruns c hdata hreach hinitial hnext hover (le_refl _)
      rw [hstop, lift_error]

/-- A string, its length in one byte before it, behind the second byte of the data. -/
theorem unpack_twoPass_string :
    unpackAt (sampleContext .lua54) [0x73, 0x31] [0, 2, 0x41, 0x42] 2
        = .ok [.string [0x41, 0x42], .integer 5]
      ∧ unpackAt (sampleContext .lua54) [0x73, 0x31] [0, 2, 0x41, 0x42] 2 ≠ .error .panicked
      ∧ ∃ values, read (sampleContext .lua54) [0x73, 0x31] [0, 2, 0x41, 0x42] 1 = .ok (4, values)
          ∧ values.length = 1 := by
  have h := unpack_twoPass (sampleContext .lua54) [0x73, 0x31] [0, 2, 0x41, 0x42] (by decide)
  have hpass : pass (sampleContext .lua54) [0x73, 0x31] [0, 2, 0x41, 0x42] 1 = .ok (4, 1) := by
    decide +kernel
  exact ⟨by decide +kernel, (h.1 2).1, (h.2 1 (by decide)).2.1 4 1 hpass⟩

end RivetLua.Stdlib.Pack
