import RivetLua.Core.FloatRounding
import RivetLua.Core.Value

namespace RivetLua.Core

/-!
# Core — arithmetic on numbers

* `F64.add`, `F64.mul`, … — the operations of `f64`: the exact result, rounded;
* `Number.floorDivide`, `Number.modulo` — division towards negative infinity;
* `Number.shift` — shifts by any `i64`, to the left or to the right.

`power` rests on the mathematical library of the host and is left out.
-/

/-! ### Errors -/

/-- `Operation`. -/
inductive Operation where
  | floorDivide | modulo | bitAnd | bitOr | bitXor | bitNot | shiftLeft | shiftRight
  | convertToInteger | convertToNumber
  deriving DecidableEq, Repr

/-- `CoreErrorKind`. -/
inductive CoreErrorKind where
  | integerDivideByZero | integerModuloByZero | notInteger | notNumeric
  deriving DecidableEq, Repr

/-- `ValueKind`. -/
inductive ValueKind where
  | nil | boolean | integer | float | lightUserdata | cFunction | object
  deriving DecidableEq, Repr

/-- `CoreError`. -/
structure CoreError where
  operation : Operation
  operand : ValueKind
  kind : CoreErrorKind
  deriving DecidableEq, Repr

/-- `Value::kind`. -/
def Value.kind : Value → ValueKind
  | .nil => .nil
  | .boolean _ => .boolean
  | .integer _ => .integer
  | .float _ => .float
  | .lightUserdata _ => .lightUserdata
  | .cFunction _ => .cFunction
  | .object _ => .object

/-! ### Operations of `f64` -/

namespace F64

/-- `f64::is_infinite`. -/
def isInfinite (x : F64) : Bool := x.exponentField == 2047 && x.fractionField == 0

/-- Is this one of the two zeros? -/
def isZero (x : F64) : Bool := x.isFinite && x.significand == 0

/-- `-x`: only the sign bit changes. -/
def neg (x : F64) : F64 := ofMagnitude (!x.negative) (x.exponentField * 2 ^ 52 + x.fractionField)

/-- `x + y`.  Terms that cancel give a positive zero. -/
def add (x y : F64) : F64 :=
  if x.isNan || y.isNan then nan
  else if x.isInfinite then
    if y.isInfinite && x.negative != y.negative then nan else x
  else if y.isInfinite then y
  else
    let sum := x.toRat + y.toRat
    ofRat (if sum = 0 then x.negative && y.negative else decide (sum < 0)) sum

/-- `x - y`. -/
def sub (x y : F64) : F64 := x.add y.neg

/-- `x * y`. -/
def mul (x y : F64) : F64 :=
  if x.isNan || y.isNan then nan
  else if x.isInfinite || y.isInfinite then
    if x.isZero || y.isZero then nan else infinity (x.negative != y.negative)
  else ofRat (x.negative != y.negative) (x.toRat * y.toRat)

/-- `x / y`. -/
def div (x y : F64) : F64 :=
  if x.isNan || y.isNan then nan
  else if x.isInfinite then
    if y.isInfinite then nan else infinity (x.negative != y.negative)
  else if y.isInfinite then zero (x.negative != y.negative)
  else if y.isZero then
    if x.isZero then nan else infinity (x.negative != y.negative)
  else ofRat (x.negative != y.negative) (x.toRat / y.toRat)

/-- `f64::floor`. -/
def floor (x : F64) : F64 := if x.isFinite then ofRat x.negative ⌊x.toRat⌋ else x

/-- `f64::ceil`. -/
def ceil (x : F64) : F64 := if x.isFinite then ofRat x.negative ⌈x.toRat⌉ else x

/-- `i as f64`. -/
def ofInt64 (i : Int64) : F64 := ofRat (decide (i < 0)) i.toInt

/-! ### Classification -/

theorem isNan_of_isFinite {x : F64} (h : x.isFinite = true) : x.isNan = false := by
  rw [isFinite, bne_iff_ne] at h
  rw [isNan, beq_eq_false_iff_ne.mpr h, Bool.false_and]

theorem isInfinite_of_isFinite {x : F64} (h : x.isFinite = true) : x.isInfinite = false := by
  rw [isFinite, bne_iff_ne] at h
  rw [isInfinite, beq_eq_false_iff_ne.mpr h, Bool.false_and]

theorem isNan_of_isInfinite {x : F64} (h : x.isInfinite = true) : x.isNan = false := by
  rw [isInfinite, Bool.and_eq_true, beq_iff_eq, beq_iff_eq] at h
  rw [isNan, h.2]
  simp

/-! ### Rounding to an integer -/

/-- A large double is an integer. -/
theorem toRat_eq_intCast {x : F64} (hx : x.isFinite = true) (h : 2 ^ 52 ≤ |x.toRat|) :
    ∃ n : Int, x.toRat = n := by
  obtain ⟨step, m, hm, -, -, hmag⟩ := exists_magnitude_eq hx
  rw [abs_toRat, hmag] at h
  have hm' : (m : ℚ) < 2 ^ 53 := by exact_mod_cast hm
  have hbase : unit 1074 = 1 := by
    rw [unit]
    norm_num
  have hstep : 1074 ≤ step := by
    by_contra hlt
    have hunit : unit step ≤ unit 1073 := unit_mono (by omega)
    have hhalf : unit (1073 + 1) = 2 ^ 1 * unit 1073 := unit_add 1073 1
    have hpos := unit_pos step
    rw [hbase] at hhalf
    nlinarith
  obtain ⟨d, rfl⟩ := Nat.exists_eq_add_of_le hstep
  rw [unit_add, hbase, mul_one] at hmag
  rw [toRat_eq_magnitude, hmag]
  split
  · exact ⟨-(m * 2 ^ d), by push_cast; ring⟩
  · exact ⟨m * 2 ^ d, by push_cast; ring⟩

/-- Rounding to an integer that lies between the number and zero, or one beyond, is exact. -/
theorem toRat_ofRat_round {x : F64} (hx : x.isFinite = true) {n : Int}
    (hsign : (n : ℚ) = if x.negative then -|(n : ℚ)| else |(n : ℚ)|)
    (hnear : |(n : ℚ)| ≤ |x.toRat| + 1) (hint : ∀ m : Int, x.toRat = m → n = m) :
    (ofRat x.negative n).isFinite = true ∧ (ofRat x.negative n).toRat = n := by
  by_cases hlarge : 2 ^ 52 ≤ |x.toRat|
  · obtain ⟨m, hm⟩ := toRat_eq_intCast hx hlarge
    apply toRat_ofRat hsign hx
    rw [hm, hint m hm]
  · exact toRat_ofRat_intCast hsign (by linarith)

theorem sign_cases (x : F64) :
    x.negative = true ∧ x.toRat ≤ 0 ∨ x.negative = false ∧ 0 ≤ x.toRat := by
  have hsign := x.toRat_sign
  cases h : x.negative <;> rw [h] at hsign
  · exact .inr ⟨rfl, abs_eq_self.mp hsign.symm⟩
  · refine .inl ⟨rfl, abs_eq_neg_self.mp ?_⟩
    simp only [if_true] at hsign
    linarith

theorem toRat_floor {x : F64} (hx : x.isFinite = true) :
    x.floor.isFinite = true ∧ x.floor.toRat = ⌊x.toRat⌋ := by
  rw [floor, if_pos hx]
  have hlo := Int.floor_le x.toRat
  have hhi := Int.lt_floor_add_one x.toRat
  have hint : ∀ m : Int, x.toRat = m → ⌊x.toRat⌋ = m := fun m hm => by rw [hm, Int.floor_intCast]
  rcases sign_cases x with ⟨hneg, hle⟩ | ⟨hneg, hle⟩
  · have hfloor : (⌊x.toRat⌋ : ℚ) ≤ 0 := hlo.trans hle
    refine toRat_ofRat_round hx ?_ ?_ hint
    · rw [hneg, if_pos rfl, abs_of_nonpos hfloor, neg_neg]
    · rw [abs_of_nonpos hfloor, abs_of_nonpos hle]
      linarith
  · have hfloor : (0 : ℚ) ≤ ⌊x.toRat⌋ := by exact_mod_cast Int.floor_nonneg.mpr hle
    refine toRat_ofRat_round hx ?_ ?_ hint
    · rw [hneg, if_neg (by simp), abs_of_nonneg hfloor]
    · rw [abs_of_nonneg hfloor, abs_of_nonneg hle]
      linarith

theorem toRat_ceil {x : F64} (hx : x.isFinite = true) :
    x.ceil.isFinite = true ∧ x.ceil.toRat = ⌈x.toRat⌉ := by
  rw [ceil, if_pos hx]
  have hlo := Int.le_ceil x.toRat
  have hhi := Int.ceil_lt_add_one x.toRat
  have hint : ∀ m : Int, x.toRat = m → ⌈x.toRat⌉ = m := fun m hm => by rw [hm, Int.ceil_intCast]
  rcases sign_cases x with ⟨hneg, hle⟩ | ⟨hneg, hle⟩
  · have hceil : (⌈x.toRat⌉ : ℚ) ≤ 0 := by exact_mod_cast Int.ceil_le.mpr (by exact_mod_cast hle)
    refine toRat_ofRat_round hx ?_ ?_ hint
    · rw [hneg, if_pos rfl, abs_of_nonpos hceil, neg_neg]
    · rw [abs_of_nonpos hceil, abs_of_nonpos hle]
      linarith
  · have hceil : (0 : ℚ) ≤ ⌈x.toRat⌉ := hle.trans hlo
    refine toRat_ofRat_round hx ?_ ?_ hint
    · rw [hneg, if_neg (by simp), abs_of_nonneg hceil]
    · rw [abs_of_nonneg hceil, abs_of_nonneg hle]
      linarith

end F64

namespace Number

/-- `as_float`. -/
def asFloat : Number → F64
  | .integer i => .ofInt64 i
  | .float x => x

end Number

/-- `number_from_value`. -/
def numberFromValue : Value → Except CoreError Number
  | .integer i => .ok (.integer i)
  | .float x => .ok (.float x)
  | other => .error ⟨.convertToNumber, other.kind, .notNumeric⟩

/-! ### Arithmetic -/

namespace Number

/-- The function `add`. -/
def add : Number → Number → Number
  | .integer left, .integer right => .integer (left + right)
  | left, right => .float (left.asFloat.add right.asFloat)

/-- The function `subtract`. -/
def subtract : Number → Number → Number
  | .integer left, .integer right => .integer (left - right)
  | left, right => .float (left.asFloat.sub right.asFloat)

/-- The function `multiply`. -/
def multiply : Number → Number → Number
  | .integer left, .integer right => .integer (left * right)
  | left, right => .float (left.asFloat.mul right.asFloat)

/-- The function `negate`. -/
def negate : Number → Number
  | .integer i => .integer (-i)
  | .float x => .float x.neg

/-- The function `divide`. -/
def divide (left right : Number) : Number := .float (left.asFloat.div right.asFloat)

/-- The sign of a truncated remainder is not that of the divisor. -/
def needsCorrection (remainder divisor : Int64) : Bool :=
  remainder != 0 && decide (0 < remainder) != decide (0 < divisor)

/-- The function `floor_divide`. -/
def floorDivide : Number → Number → Except CoreError Number
  | .integer left, .integer right =>
    if right = 0 then .error ⟨.floorDivide, .integer, .integerDivideByZero⟩
    else if left = Int64.minValue ∧ right = -1 then .ok (.integer Int64.minValue)
    else
      let quotient := left / right
      let remainder := left % right
      .ok (.integer (if needsCorrection remainder right then quotient - 1 else quotient))
  | left, right => .ok (.float (left.asFloat.div right.asFloat).floor)

/-- The function `modulo`. -/
def modulo : Number → Number → Except CoreError Number
  | .integer left, .integer right =>
    if right = 0 then .error ⟨.modulo, .integer, .integerModuloByZero⟩
    else if left = Int64.minValue ∧ right = -1 then .ok (.integer 0)
    else
      let remainder := left % right
      .ok (.integer (if needsCorrection remainder right then remainder + right else remainder))
  | left, right =>
    let quotient := (left.asFloat.div right.asFloat).floor
    .ok (.float (left.asFloat.sub (quotient.mul right.asFloat)))

/-! ### Operations on integers -/

/-- `to_integer`: the cast of a float is exact where the test lets it through. -/
def toInteger (value : Number) (operation : Operation) : Except CoreError Int64 :=
  match value with
  | .integer i => .ok i
  | .float x =>
    match x.toI64? with
    | some i => .ok i
    | none => .error ⟨operation, .float, .notInteger⟩

/-- The functions `bit_and`, `bit_or` and `bit_xor`. -/
def bitwise (operation : Operation) (combine : Int64 → Int64 → Int64) (left right : Number) :
    Except CoreError Number := do
  let left ← left.toInteger operation
  let right ← right.toInteger operation
  .ok (.integer (combine left right))

/-- The function `bit_and`. -/
def bitAnd : Number → Number → Except CoreError Number := bitwise .bitAnd (· &&& ·)

/-- The function `bit_or`. -/
def bitOr : Number → Number → Except CoreError Number := bitwise .bitOr (· ||| ·)

/-- The function `bit_xor`. -/
def bitXor : Number → Number → Except CoreError Number := bitwise .bitXor (· ^^^ ·)

/-- The function `bit_not`. -/
def bitNot (value : Number) : Except CoreError Number := do
  let value ← value.toInteger .bitNot
  .ok (.integer (~~~value))

/-- The function `shift` on two integers. -/
def shiftInteger (value shift : Int64) (left : Bool) : Int64 :=
  let magnitude := shift.toInt.natAbs
  if 64 ≤ magnitude then 0
  else if decide (0 ≤ shift) = left then ⟨⟨value.toBitVec <<< magnitude⟩⟩
  else ⟨⟨value.toBitVec >>> magnitude⟩⟩

/-- The function `shift`. -/
def shift (value shift : Number) (operation : Operation) (left : Bool) :
    Except CoreError Number := do
  let value ← value.toInteger operation
  let shift ← shift.toInteger operation
  .ok (.integer (shiftInteger value shift left))

/-- The function `shift_left`. -/
def shiftLeft (value amount : Number) : Except CoreError Number :=
  shift value amount .shiftLeft true

/-- The function `shift_right`. -/
def shiftRight (value amount : Number) : Except CoreError Number :=
  shift value amount .shiftRight false

end Number

end RivetLua.Core
