import RivetLua.Core.NumberText

namespace RivetLua.Stdlib.Basic

open RivetLua.Core

/-!
# Stdlib — `tonumber` without a base

* `luaHexNumber` — `lua_hex_number`;
* `parseNumberBytes` — `parse_number_bytes`, which `tonumber` and the C API share.
-/

variable (fl : FloatArith)

/-- What the loop of `lua_hex_number` has read: the digits modulo `2^64`, their value as a float,
    and how many there are. -/
structure HexRun where
  integer : UInt64
  state : FloatArith.HexState
  digits : Nat

/-- Before the first digit. -/
def HexRun.start : HexRun := ⟨0, fl.hexStart, 0⟩

/-- One more digit. -/
def HexRun.push (run : HexRun) (digit : Nat) : HexRun :=
  ⟨run.integer * 16 + UInt64.ofNat digit, fl.hexStep run.state digit, run.digits + 1⟩

/-- The first point. -/
def HexRun.point (run : HexRun) : HexRun :=
  { run with state := { run.state with fractional := true } }

/-- The loop of `lua_hex_number`: digits and at most one point, and the bytes behind them. -/
def hexLoop : List UInt8 → HexRun → HexRun × List UInt8
  | [], run => (run, [])
  | byte :: rest, run =>
    if byte = 0x2e ∧ run.state.fractional = false then hexLoop rest run.point
    else
      match hexValue byte with
      | none => (run, byte :: rest)
      | some digit => hexLoop rest (run.push fl digit)

/-- A text that starts with `0x` or `0X`. -/
def hasHexPrefix (text : List UInt8) : Bool :=
  text.take 2 == [0x30, 0x78] || text.take 2 == [0x30, 0x58]

/-- A float with the sign of the text. -/
def signed (negative : Bool) (value : F64) : Number :=
  .float (if negative then fl.neg value else value)

/-- `lua_hex_number`. -/
def luaHexNumber (text : List UInt8) : Option Number :=
  let (negative, bytes) := splitSign text
  if hasHexPrefix bytes = false then none
  else
    let (run, rest) := hexLoop fl (bytes.drop 2) (.start fl)
    if run.digits = 0 then none
    else if run.state.fractional = false ∧ rest = [] ∧ run.digits ≤ 16 then
      some (.integer (if negative then 0 - run.integer else run.integer).toInt64)
    else
      match rest with
      | [] => some (signed fl negative run.state.value)
      | byte :: exponent =>
        if isHexExponentMark byte then do
          let text ← fromUtf8 exponent
          let exponent ← parseI32 text
          some (signed fl negative (fl.mul run.state.value (fl.powi exponent)))
        else none

/-- `char::is_ascii_whitespace`. -/
def isAsciiWhitespace (byte : UInt8) : Bool :=
  byte == 0x20 || byte == 0x09 || byte == 0x0a || byte == 0x0c || byte == 0x0d

/-- `str::trim_matches` at both ends. -/
def trimWhitespace (text : List UInt8) : List UInt8 :=
  ((text.dropWhile isAsciiWhitespace).reverse.dropWhile isAsciiWhitespace).reverse

/-- What `parse_number_bytes` makes of the text it has trimmed. -/
def numberOfText (text : List UInt8) : Option Number :=
  if hasHexPrefix text || hasHexPrefix (text.drop 1) then luaHexNumber fl text
  else
    match parseI64 text with
    | some value => some (.integer value)
    | none =>
      if isFloatWord (text.dropWhile fun byte => byte == 0x2d || byte == 0x2b) then none
      else (fl.parseF64 text).map .float

/-- `parse_number_bytes`. -/
def parseNumberBytes (bytes : List UInt8) : Option Number := do
  let text ← fromUtf8 bytes
  numberOfText fl (trimWhitespace text)

end RivetLua.Stdlib.Basic
