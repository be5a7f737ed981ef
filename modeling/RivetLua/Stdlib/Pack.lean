import RivetLua.Core.Float
import RivetLua.Core.NumberText
import RivetLua.Lib.Check
import RivetLua.Lib.Wire
import RivetLua.Stdlib.Utf8

namespace RivetLua.Stdlib.Pack

open RivetLua.Core
open Check (reject bind_eq_ok then_eq_ok reject_eq_ok ok_bind error_bind)
open Utf8 (maxSize)

/-!
# Stdlib — `string.pack`, `string.unpack` and `string.packsize`

A format is a string of options.  Five loops walk over it, and each of them asks the parser for the
next option with the number of bytes behind it, on which the padding depends: the size of the
arguments (`packSize`), the bytes (`pack`), the size of the format (`packsize`), the check of the
data (`unpackPass`) and the values (`unpack`).  `Parser.each` is that loop.

Arguments are converted by the machine the library runs in, so the conversions are a parameter;
`usize` has 64 bits; a call that runs out of memory has no result and is left out.

* `Parser.next` — one option with its padding;
* `writeInteger`, `readInteger` — integers of one to sixteen bytes;
* `pack`, `unpack`, `packSize`, `packsize` — the library functions.
-/

/-- The errors of the library: a refused argument and an overflowing position. -/
inductive PackError where
  | argument | overflow
  deriving DecidableEq, Repr

/-- What an option stands for. -/
inductive Kind where
  | int (signed : Bool)
  | float | char | string | zero | pad | align | noop
  deriving DecidableEq, Repr

/-- One option with the padding before it. -/
structure Spec where
  kind : Kind
  size : Nat
  pad : Nat
  little : Bool
  deriving DecidableEq, Repr

/-- What the library takes from the machine it was built for. -/
structure Target where
  little : Bool
  /-- `size_of::<c_long>()`. -/
  longBytes : Nat
  /-- The alignment of `u128` and `f64`, or 8 where that is not used. -/
  maxAlign : Nat
  /-- A `long` is one of the integers the library can write. -/
  longBytes_pos : 0 < longBytes
  longBytes_le : longBytes ≤ 8

/-- `native_max_align`. -/
def nativeMaxAlign (target : Target) : LuaProfile → Nat
  | .lua54 => 8
  | .lua55 => target.maxAlign

/-! ### The parser of formats -/

/-- The parser: the unread format and what the options read so far have set. -/
structure Parser where
  rest : List UInt8
  little : Bool
  maxalign : Nat
  nativeAlign : Nat
  deriving DecidableEq, Repr

namespace Parser

/-- `Parser::new`. -/
def new (target : Target) (profile : LuaProfile) (bytes : List UInt8) : Parser :=
  ⟨bytes, target.little, 1, nativeMaxAlign target profile⟩

/-- The digits of a number; it has to fit into a `usize`. -/
def digits : List UInt8 → Nat → Except PackError (Nat × List UInt8)
  | [], number => .ok (number, [])
  | digit :: rest, number =>
    if isAsciiDigit digit then
      if number * 10 + digitValue digit < 2 ^ 64 then
        digits rest (number * 10 + digitValue digit)
      else .error .argument
    else .ok (number, digit :: rest)

/-- `Parser::number`. -/
def number (p : Parser) (default : Nat) : Except PackError (Nat × Parser) :=
  if p.rest.head?.any isAsciiDigit then do
    let (number, rest) ← digits p.rest 0
    .ok (number, { p with rest := rest })
  else .ok (default, p)

/-- `Parser::limited`. -/
def limited (p : Parser) (default : Nat) : Except PackError (Nat × Parser) := do
  let (size, p) ← p.number default
  reject (¬ (1 ≤ size ∧ size ≤ 16)) .argument
  .ok (size, p)

/-- `usize::MAX`, which stands for a `c` without a size. -/
def noSize : Nat := 2 ^ 64 - 1

/-- The option a letter stands for; the parser is behind the letter. -/
def optionOf (target : Target) (p : Parser) : UInt8 → Except PackError ((Kind × Nat) × Parser)
  | 0x62 => .ok ((.int true, 1), p)
  | 0x42 => .ok ((.int false, 1), p)
  | 0x68 => .ok ((.int true, 2), p)
  | 0x48 => .ok ((.int false, 2), p)
  | 0x6c => .ok ((.int true, target.longBytes), p)
  | 0x4c => .ok ((.int false, target.longBytes), p)
  | 0x6a => .ok ((.int true, 8), p)
  | 0x4a => .ok ((.int false, 8), p)
  | 0x54 => .ok ((.int false, 8), p)
  | 0x69 => do
    let (size, p) ← p.limited 4
    .ok ((.int true, size), p)
  | 0x49 => do
    let (size, p) ← p.limited 4
    .ok ((.int false, size), p)
  | 0x66 => .ok ((.float, 4), p)
  | 0x64 => .ok ((.float, 8), p)
  | 0x6e => .ok ((.float, 8), p)
  | 0x63 => do
    let (size, p) ← p.number noSize
    .ok ((.char, size), p)
  | 0x73 => do
    let (size, p) ← p.limited 8
    .ok ((.string, size), p)
  | 0x7a => .ok ((.zero, 0), p)
  | 0x78 => .ok ((.pad, 1), p)
  | 0x58 => .ok ((.align, 0), p)
  | 0x20 => .ok ((.noop, 0), p)
  | 0x3c => .ok ((.noop, 0), { p with little := true })
  | 0x3e => .ok ((.noop, 0), { p with little := false })
  | 0x3d => .ok ((.noop, 0), { p with little := target.little })
  | 0x21 => do
    let (size, p) ← p.limited p.nativeAlign
    .ok ((.noop, 0), { p with maxalign := size })
  | _ => .error .argument

/-- `Parser::option`: a zero byte ends a format as its end does. -/
def option (target : Target) (p : Parser) :
    Except PackError (Option ((Kind × Nat) × Parser)) :=
  match p.rest with
  | [] => .ok none
  | code :: rest =>
    if code = 0 then .ok none
    else do
      let ((kind, size), p) ← optionOf target { p with rest := rest } code
      reject (kind = .char ∧ size = noSize) .argument
      .ok (some ((kind, size), p))

/-- What an option is aligned to, before the setting of the maximum: an `X` takes the size of the
    option behind it. -/
def alignment (target : Target) (p : Parser) (kind : Kind) (size : Nat) :
    Except PackError (Nat × Parser) :=
  match kind with
  | .align => do
    match ← p.option target with
    | none => .error .argument
    | some ((next, size), p) =>
      reject (next = .char ∨ size = 0) .argument
      .ok (size, p)
  | .char => .ok (1, p)
  | _ => .ok (size, p)

/-- `usize::is_power_of_two`. -/
def isPowerOfTwo (n : Nat) : Bool := n ≠ 0 && n &&& (n - 1) == 0

/-- The padding that aligns a position. -/
def padding (align total : Nat) : Nat :=
  if align > 1 then (align - (total &&& (align - 1))) &&& (align - 1) else 0

/-- `Parser::next`. -/
def next (target : Target) (p : Parser) (total : Nat) :
    Except PackError (Option (Spec × Parser)) := do
  match ← p.option target with
  | none => .ok none
  | some ((kind, size), p) =>
    let (align, p) ← alignment target p kind size
    let align := min align p.maxalign
    reject (align > 1 ∧ isPowerOfTwo align = false) .argument
    .ok (some (⟨kind, size, padding align total, p.little⟩, p))

/-- `while let Some(spec) = parser.next(total)?`: run a step for every option of a format.  Every
    option takes a byte of the format, so as many rounds as there are bytes are enough. -/
def each {σ : Type} (target : Target) (total : σ → Nat) (step : Spec → σ → Except PackError σ) :
    Nat → Parser → σ → Except PackError σ
  | 0, _, state => .ok state
  | fuel + 1, p, state => do
    match ← p.next target (total state) with
    | none => .ok state
    | some (spec, p) =>
      let state ← step spec state
      each target total step fuel p state

end Parser

/-! ### Integers -/

/-- Byte `index` of a written integer; the bytes behind the eighth extend the sign. -/
def part (number : Nat) (negative : Bool) (index : Nat) : UInt8 :=
  if index ≥ 8 then if negative then 255 else 0 else UInt8.ofNat (number >>> (index * 8))

/-- `write_integer`. -/
def writeInteger (output : List UInt8) (number size : Nat) (little negative : Bool) :
    List UInt8 :=
  (List.range size).foldl (fun output index =>
    if little then output ++ [part number negative index]
    else output.insertIdx (output.length - index) (part number negative index)) output

/-- Byte `index` of an integer that is read, the lowest first. -/
def byteOf (bytes : List UInt8) (little : Bool) (index : Nat) : UInt8 :=
  bytes.getD (if little then index else bytes.length - 1 - index) 0

/-- The low bytes of an integer that is read; eight bytes are no more than a `u64`. -/
def lowBytes (bytes : List UInt8) (little : Bool) : Nat :=
  (List.range (min bytes.length 8)).reverse.foldl
    (fun result index => (result <<< 8) ||| (byteOf bytes little index).toNat) 0

/-- Sign extension of an integer of less than eight bytes. -/
def extendSign (size : Nat) (signed : Bool) (result : BitVec 64) : BitVec 64 :=
  if size < 8 ∧ signed = true then (result <<< (64 - size * 8)).sshiftRight (64 - size * 8)
  else result

/-- The byte that extends an integer of more than eight bytes. -/
def extension (signed : Bool) (result : BitVec 64) : UInt8 :=
  if signed = true ∧ result.toInt < 0 then 255 else 0

/-- `read_integer`. -/
def readInteger (bytes : List UInt8) (little signed : Bool) : Except PackError Int64 := do
  let result := extendSign bytes.length signed (BitVec.ofNat 64 (lowBytes bytes little))
  reject (((List.range bytes.length).drop 8).any fun index =>
    byteOf bytes little index != extension signed result) .argument
  .ok (Int64.ofBitVec result)

/-! ### The library functions -/

/-- The machine a call runs in: the profile, the target, the conversions of arguments and those
    between doubles and singles. -/
structure Context (α : Type) where
  profile : LuaProfile
  target : Target
  integer : α → Except PackError Int64
  number : α → Except PackError F64
  bytes : α → Except PackError (List UInt8)
  /-- The bits of `value as f32`. -/
  narrow : F64 → BitVec 32
  /-- `f32::from_bits(bits) as f64`. -/
  widen : BitVec 32 → F64

variable {α : Type} (c : Context α)

/-- `checked_size`. -/
def checkedSize (current extra : Nat) : Except PackError Nat := do
  reject (current + extra > maxSize c.profile) .argument
  .ok (current + extra)

/-- `string::arg` at the next index. -/
def arg : List α → Except PackError (α × List α)
  | [] => .error .argument
  | value :: args => .ok (value, args)

/-- `validate_integer`. -/
def validateInteger (value : Int64) (size : Nat) (signed : Bool) : Except PackError Unit :=
  if size < 8 then
    if signed then
      reject (value.toInt < -2 ^ (size * 8 - 1) ∨ value.toInt ≥ 2 ^ (size * 8 - 1)) .argument
    else reject (value.toInt < 0 ∨ value.toInt ≥ 2 ^ (size * 8)) .argument
  else .ok ()

/-- What an option needs of the string it packs. -/
def validateBytes (spec : Spec) (bytes : List UInt8) : Except PackError Unit :=
  match spec.kind with
  | .char => reject (bytes.length > spec.size) .argument
  | .string => reject (spec.size < 8 ∧ bytes.length ≥ 2 ^ (spec.size * 8)) .argument
  | .zero => reject (bytes.contains 0) .argument
  | _ => .ok ()

/-- The bytes of a string beside the size of its option. -/
def extraBytes (spec : Spec) (bytes : List UInt8) : Nat :=
  match spec.kind with
  | .zero => bytes.length + 1
  | .string => bytes.length
  | _ => 0

/-- The argument of an option and the bytes it adds. -/
def sizeField (spec : Spec) (total : Nat) (args : List α) : Except PackError (Nat × List α) :=
  match spec.kind with
  | .int signed => do
    let (value, args) ← arg args
    let value ← c.integer value
    validateInteger value spec.size signed
    .ok (total, args)
  | .float => do
    let (value, args) ← arg args
    let _ ← c.number value
    .ok (total, args)
  | .char | .string | .zero => do
    let (value, args) ← arg args
    let bytes ← c.bytes value
    validateBytes spec bytes
    let total ← checkedSize c total (extraBytes spec bytes)
    .ok (total, args)
  | .pad | .align | .noop => .ok (total, args)

/-- One round of `pack_size`. -/
def sizeStep (spec : Spec) (state : Nat × List α) : Except PackError (Nat × List α) := do
  let total ← checkedSize c state.1 spec.pad
  let total ← checkedSize c total spec.size
  sizeField c spec total state.2

/-- `pack_size`: the number of bytes of the packed arguments. -/
def packSize (format : List UInt8) (args : List α) : Except PackError Nat := do
  let (total, _) ← Parser.each c.target Prod.fst (sizeStep c) format.length
    (Parser.new c.target c.profile format) (0, args)
  .ok total

/-- The bytes of a word in the order of an option. -/
def wordBytes (little : Bool) (size word : Nat) : List UInt8 :=
  if little then Wire.littleEndian size word else (Wire.littleEndian size word).reverse

/-- The bytes of a floating-point number. -/
def floatBytes (spec : Spec) (value : F64) : List UInt8 :=
  if spec.size = 4 then wordBytes spec.little 4 (c.narrow value).toNat
  else wordBytes spec.little 8 value.bits.toNat

/-- The bytes of a string with its length before it or its zeros behind it. -/
def writeBytes (spec : Spec) (output bytes : List UInt8) : List UInt8 :=
  match spec.kind with
  | .string => writeInteger output bytes.length spec.size spec.little false ++ bytes
  | .char => output ++ bytes ++ List.replicate (spec.size - bytes.length) 0
  | .zero => output ++ bytes ++ [0]
  | _ => output ++ bytes

/-- One round of `pack`. -/
def writeStep (spec : Spec) (state : List UInt8 × List α) :
    Except PackError (List UInt8 × List α) :=
  let output := state.1 ++ List.replicate spec.pad 0
  match spec.kind with
  | .int signed => do
    let (value, args) ← arg state.2
    let n ← c.integer value
    .ok (writeInteger output n.toBitVec.toNat spec.size spec.little
      (signed && decide (n.toInt < 0)), args)
  | .float => do
    let (value, args) ← arg state.2
    let value ← c.number value
    .ok (output ++ floatBytes c spec value, args)
  | .char | .string | .zero => do
    let (value, args) ← arg state.2
    let bytes ← c.bytes value
    .ok (writeBytes spec output bytes, args)
  | .pad => .ok (output ++ [0], state.2)
  | .align | .noop => .ok (output, state.2)

/-- `pack`: the size first, then the bytes. -/
def pack (format : List UInt8) (args : List α) : Except PackError (List UInt8) := do
  let _ ← packSize c format args
  let (output, _) ← Parser.each c.target (fun state => state.1.length) (writeStep c) format.length
    (Parser.new c.target c.profile format) ([], args)
  .ok output

/-- One round of `string.packsize`. -/
def packsizeStep (spec : Spec) (total : Nat) : Except PackError Nat := do
  reject (spec.kind = .string ∨ spec.kind = .zero) .argument
  reject (spec.pad + spec.size ≥ 2 ^ 64) .argument
  checkedSize c total (spec.pad + spec.size)

/-- `string.packsize`. -/
def packsize (format : List UInt8) : Except PackError Nat := do
  let size ← Parser.each c.target id (packsizeStep c) format.length
    (Parser.new c.target c.profile format) 0
  reject (size ≥ 2 ^ 63) .argument
  .ok size

/-- A value that was unpacked. -/
inductive Item where
  | integer (n : Int64)
  | float (x : F64)
  | string (bytes : List UInt8)
  deriving DecidableEq, Repr

/-- `data[position..position + size]`. -/
def slice (data : List UInt8) (position size : Nat) : List UInt8 := (data.drop position).take size

/-- The length before a string. -/
def readLength (spec : Spec) (data : List UInt8) (position : Nat) : Except PackError Nat := do
  let length ← readInteger (slice data position spec.size) spec.little false
  .ok length.toBitVec.toNat

/-- The position of the zero behind a string. -/
def readZero (data : List UInt8) (position : Nat) : Except PackError Nat :=
  match (data.drop position).findIdx? (· == 0) with
  | none => .error .argument
  | some length => .ok length

/-- What `unpack_pass` checks of one option, and the position and the number of values it leads to,
    before the size of the option. -/
def passField (spec : Spec) (data : List UInt8) (position count : Nat) :
    Except PackError (Nat × Nat) :=
  match spec.kind with
  | .int signed => do
    let _ ← readInteger (slice data position spec.size) spec.little signed
    .ok (position, count + 1)
  | .float | .char => .ok (position, count + 1)
  | .string => do
    let length ← readLength spec data position
    reject (length > data.length - position - spec.size) .argument
    .ok (position + length, count + 1)
  | .zero => do
    let length ← readZero data position
    reject (position + (length + 1) ≥ 2 ^ 64) .argument
    .ok (position + (length + 1), count + 1)
  | .pad | .align | .noop => .ok (position, count)

/-- The number of values a call may return. -/
def maxResults : Nat := 65535

/-- One round of `unpack_pass`. -/
def passStep (data : List UInt8) (spec : Spec) (state : Nat × Nat) :
    Except PackError (Nat × Nat) := do
  reject (spec.pad + spec.size ≥ 2 ^ 64) .argument
  reject (spec.pad + spec.size > data.length - state.1) .argument
  let (position, count) ← passField spec data (state.1 + spec.pad) state.2
  let position ← checkedSize c position spec.size
  reject (count ≥ maxResults) .argument
  .ok (position, count)

/-- `unpack_pass`: the number of values. -/
def unpackPass (format data : List UInt8) (initial : Nat) : Except PackError Nat := do
  let (_, count) ← Parser.each c.target Prod.fst (passStep c data) format.length
    (Parser.new c.target c.profile format) (initial, 0)
  .ok count

/-- The number a word denotes in the order of an option. -/
def ofWordBytes (little : Bool) (bytes : List UInt8) : Nat :=
  Wire.ofLittleEndian (if little then bytes else bytes.reverse)

/-- A floating-point number. -/
def readFloat (spec : Spec) (bytes : List UInt8) : F64 :=
  if spec.size = 4 then c.widen (BitVec.ofNat 32 (ofWordBytes spec.little bytes))
  else ⟨BitVec.ofNat 64 (ofWordBytes spec.little bytes)⟩

/-- The value of an option, and the position before the size of the option is added. -/
def readField (spec : Spec) (data : List UInt8) (position : Nat) (output : List Item) :
    Except PackError (Nat × List Item) :=
  match spec.kind with
  | .int signed => do
    let n ← readInteger (slice data position spec.size) spec.little signed
    .ok (position, output ++ [.integer n])
  | .float => .ok (position, output ++ [.float (readFloat c spec (slice data position spec.size))])
  | .char => .ok (position, output ++ [.string (slice data position spec.size)])
  | .string => do
    let length ← readLength spec data position
    .ok (position + length, output ++ [.string (slice data (position + spec.size) length)])
  | .zero => do
    let length ← readZero data position
    .ok (position + (length + 1), output ++ [.string (slice data position length)])
  | .pad | .align | .noop => .ok (position, output)

/-- One round of `unpack`. -/
def readStep (data : List UInt8) (spec : Spec) (state : Nat × List Item) :
    Except PackError (Nat × List Item) := do
  let (position, output) ← readField c spec data (state.1 + spec.pad) state.2
  .ok (position + spec.size, output)

/-- `string::start_position`. -/
def startPosition (position : Int64) (len : Nat) : Nat :=
  if position.toInt > 0 then position.toInt.toNat
  else if position.toInt = 0 then 1
  else if position.toInt.natAbs > len then 1
  else len - position.toInt.natAbs + 1

/-- `unpack`: the check first, then the values and the position behind them. -/
def unpack (format data : List UInt8) (init : Int64) : Except PackError (List Item) := do
  let initial := startPosition init data.length - 1
  reject (initial > data.length) .argument
  let _ ← unpackPass c format data initial
  let (position, output) ← Parser.each c.target Prod.fst (readStep c data) format.length
    (Parser.new c.target c.profile format) (initial, [])
  reject (position + 1 ≥ 2 ^ 63) .overflow
  .ok (output ++ [.integer (Int64.ofNat (position + 1))])

end RivetLua.Stdlib.Pack
