import RivetLua.Core.Value
import Mathlib.Data.String.Basic

namespace RivetLua.Core

/-!
# Core — texts of numbers

What the lexer and `tonumber` take from the standard library of the source when they read a
number: the check that bytes are text, the integer parser and the grammar of the float parser.
A text is a list of bytes.

The value of a float is left to the machine.  `FloatArith` collects the operations the two
readers apply to digits; all that is known of them is that scaling by `2^0` changes nothing.

* `fromUtf8` — `core::str::from_utf8`;
* `parseInteger`, `parseI32`, `parseI64` — `str::parse` at an integer type;
* `isNumeral`, `isFloatText`, `FloatArith.parseF64` — `str::parse::<f64>` and its grammar;
* `FloatArith.hexStep` — one digit of a hexadecimal mantissa.
-/

/-! ### Bytes -/

/-- A byte is decided by its 256 values. -/
theorem forall_byte {p : UInt8 → Prop} (h : ∀ n < 256, p (UInt8.ofNat n)) (byte : UInt8) :
    p byte := by
  have := h byte.toNat byte.toNat_lt
  rwa [UInt8.ofNat_toNat] at this

/-- `u8::is_ascii_digit`. -/
def isAsciiDigit (byte : UInt8) : Bool := 0x30 ≤ byte && byte ≤ 0x39

/-- `u8::is_ascii_alphabetic`. -/
def isAsciiAlphabetic (byte : UInt8) : Bool :=
  (0x41 ≤ byte && byte ≤ 0x5a) || (0x61 ≤ byte && byte ≤ 0x7a)

/-- `u8::is_ascii_control`. -/
def isAsciiControl (byte : UInt8) : Bool := byte < 0x20 || byte == 0x7f

/-- `hex_value` of the lexer, `hex_digit` of the basic library. -/
def hexValue (byte : UInt8) : Option Nat :=
  if 0x30 ≤ byte ∧ byte ≤ 0x39 then some (byte.toNat - 0x30)
  else if 0x61 ≤ byte ∧ byte ≤ 0x66 then some (byte.toNat - 0x61 + 10)
  else if 0x41 ≤ byte ∧ byte ≤ 0x46 then some (byte.toNat - 0x41 + 10)
  else none

/-- `u8::is_ascii_hexdigit`. -/
def isAsciiHexdigit (byte : UInt8) : Bool := (hexValue byte).isSome

/-- The value of a decimal digit. -/
def digitValue (byte : UInt8) : Nat := byte.toNat - 0x30

/-- `core::str::from_utf8`: the bytes, if they are text. -/
def fromUtf8 (bytes : List UInt8) : Option (List UInt8) :=
  if bytes.toByteArray.validateUTF8 then some bytes else none

/-- ASCII bytes are text. -/
theorem fromUtf8_of_ascii {bytes : List UInt8} (h : ∀ byte ∈ bytes, byte < 0x80) :
    fromUtf8 bytes = some bytes := by
  have hvalid : bytes.toByteArray.IsValidUTF8 := by
    induction bytes with
    | nil => exact ByteArray.isValidUTF8_empty
    | cons byte rest ih =>
      have hlow : ¬ 127 < byte.toNat := Nat.not_lt_of_le (Nat.le_pred_of_lt (h byte (by simp)))
      have hbyte : [byte] = String.utf8EncodeChar (Char.ofUInt8 byte) := by
        have hval : (Char.ofUInt8 byte).val.toNat = byte.toNat := by
          show byte.toUInt32.toNat = byte.toNat
          simp
        simp [String.utf8EncodeChar, hval, hlow]
      have hfirst : [byte].toByteArray.IsValidUTF8 := by
        rw [hbyte]
        exact Char.isValidUTF8_toByteArray_utf8EncodeChar
      have hrest := ih fun b hb => h b (List.mem_cons_of_mem _ hb)
      rw [← List.singleton_append, List.toByteArray_append]
      exact hfirst.append hrest
  rw [fromUtf8, if_pos (ByteArray.validateUTF8_eq_true_iff.mpr hvalid)]

/-! ### Integers -/

/-- The number a sequence of decimal digits denotes. -/
def decimalValue (digits : List UInt8) : Nat :=
  digits.foldl (fun value digit => value * 10 + digitValue digit) 0

/-- A sign in front of a text, and what follows it. -/
def splitSign : List UInt8 → Bool × List UInt8
  | [] => (false, [])
  | byte :: rest =>
    if byte = 0x2d then (true, rest) else if byte = 0x2b then (false, rest) else (false, byte :: rest)

/-- `str::parse` at a signed integer type: an optional sign, digits only, in range. -/
def parseInteger (least greatest : Int) (text : List UInt8) : Option Int :=
  let (negative, digits) := splitSign text
  if digits = [] ∨ digits.all isAsciiDigit = false then none
  else
    let value : Int := if negative then -decimalValue digits else decimalValue digits
    if least ≤ value ∧ value ≤ greatest then some value else none

/-- `str::parse::<i32>`. -/
def parseI32 : List UInt8 → Option Int := parseInteger (-2 ^ 31) (2 ^ 31 - 1)

/-- `str::parse::<i64>`. -/
def parseI64 (text : List UInt8) : Option Int64 :=
  (parseInteger (-2 ^ 63) (2 ^ 63 - 1) text).map Int64.ofInt

/-! ### Floats -/

/-- `str::eq_ignore_ascii_case` against a word in lower case. -/
def eqIgnoreAsciiCase (text word : List UInt8) : Bool :=
  text.map (fun byte => if 0x41 ≤ byte ∧ byte ≤ 0x5a then byte + 0x20 else byte) == word

/-- `nan`, `inf` and `infinity`, which the float parser accepts besides numerals. -/
def isFloatWord (text : List UInt8) : Bool :=
  eqIgnoreAsciiCase text [0x6e, 0x61, 0x6e] || eqIgnoreAsciiCase text [0x69, 0x6e, 0x66]
    || eqIgnoreAsciiCase text [0x69, 0x6e, 0x66, 0x69, 0x6e, 0x69, 0x74, 0x79]

/-- The marker of a decimal exponent. -/
def isExponentMark (byte : UInt8) : Bool := byte == 0x65 || byte == 0x45

/-- The marker of a hexadecimal exponent. -/
def isHexExponentMark (byte : UInt8) : Bool := byte == 0x70 || byte == 0x50

/-- Whether a text is an exponent: nothing, or a marker, an optional sign and digits. -/
def isExponent (marker : UInt8 → Bool) : List UInt8 → Bool
  | [] => true
  | byte :: rest =>
    marker byte && !(splitSign rest).2.isEmpty && (splitSign rest).2.all isAsciiDigit

/-- Whether a text is a numeral over the given digits: digits with at most one point and at least
    one digit, then an exponent. -/
def isNumeral (digit marker : UInt8 → Bool) (text : List UInt8) : Bool :=
  let whole := text.takeWhile digit
  match text.dropWhile digit with
  | [] => !whole.isEmpty
  | byte :: rest =>
    if byte = 0x2e then
      !(whole.isEmpty && (rest.takeWhile digit).isEmpty)
        && isExponent marker (rest.dropWhile digit)
    else !whole.isEmpty && isExponent marker (byte :: rest)

/-- Whether a text without sign is a decimal numeral. -/
def isDecimal : List UInt8 → Bool := isNumeral isAsciiDigit isExponentMark

/-- The texts `str::parse::<f64>` accepts. -/
def isFloatText (text : List UInt8) : Bool :=
  isDecimal (splitSign text).2 || isFloatWord (splitSign text).2

/-- The float operations the readers of numbers apply. -/
structure FloatArith where
  add : F64 → F64 → F64
  mul : F64 → F64 → F64
  div : F64 → F64 → F64
  neg : F64 → F64
  ofNat : Nat → F64
  /-- `2f64.powi`. -/
  powi : Int → F64
  /-- The float nearest to an accepted text. -/
  nearest : List UInt8 → F64
  /-- A finite number times `2^0` is itself. -/
  mul_powi_zero : ∀ x : F64, x.isFinite = true → mul x (powi 0) = x
  /-- Nothing else becomes finite. -/
  not_isFinite_mul_powi_zero : ∀ x : F64, x.isFinite = false → (mul x (powi 0)).isFinite = false

namespace FloatArith

variable (fl : FloatArith)

/-- `str::parse::<f64>`. -/
def parseF64 (text : List UInt8) : Option F64 :=
  if isFloatText text then some (fl.nearest text) else none

/-- The running value of a hexadecimal mantissa: the number read so far, whether the point has
    been passed, and the weight of the last digit behind it. -/
structure HexState where
  value : F64
  fractional : Bool
  scale : F64
  deriving DecidableEq, Repr

/-- Before the first digit. -/
def hexStart : HexState := ⟨fl.ofNat 0, false, fl.ofNat 1⟩

/-- One more digit. -/
def hexStep (state : HexState) (digit : Nat) : HexState :=
  if state.fractional then
    let scale := fl.div state.scale (fl.ofNat 16)
    { state with scale, value := fl.add state.value (fl.mul (fl.ofNat digit) scale) }
  else { state with value := fl.add (fl.mul state.value (fl.ofNat 16)) (fl.ofNat digit) }

end FloatArith

/-! ### Arithmetic on small natural numbers -/

/-- The float of a natural number below `2^53`. -/
def F64.ofSmallNat (n : Nat) : F64 :=
  if n = 0 then ⟨0⟩
  else ⟨BitVec.ofNat 64 ((1023 + n.log2) * 2 ^ 52 + (n - 2 ^ n.log2) * 2 ^ (52 - n.log2))⟩

/-- The natural number a float denotes. -/
def F64.toSmallNat (x : F64) : Nat := x.toRat.num.toNat / x.toRat.den

/-- An arithmetic that is exact on natural numbers below `2^53`. -/
def FloatArith.smallNat : FloatArith where
  add x y := .ofSmallNat (x.toSmallNat + y.toSmallNat)
  mul x y := if y = .ofSmallNat 1 then x else .ofSmallNat (x.toSmallNat * y.toSmallNat)
  div x y := .ofSmallNat (x.toSmallNat / y.toSmallNat)
  neg x := ⟨x.bits ^^^ BitVec.ofNat 64 (2 ^ 63)⟩
  ofNat := .ofSmallNat
  powi exponent := .ofSmallNat (2 ^ exponent.toNat)
  nearest text := .ofSmallNat (decimalValue text)
  mul_powi_zero x _ := if_pos rfl
  not_isFinite_mul_powi_zero x h := by
    have hone : F64.ofSmallNat (2 ^ Int.toNat 0) = F64.ofSmallNat 1 := rfl
    rw [if_pos hone]
    exact h

end RivetLua.Core
