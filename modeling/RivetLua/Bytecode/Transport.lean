import RivetLua.Lib.Follow
import RivetLua.Bytecode.Codec

namespace RivetLua.Bytecode.Transport

open RivetLua.Core Wire

/-!
# Bytecode — the scans of the transport

A module travels as RVLU bytes and a sidecar.  Before anything is allocated for them, both are
walked over once: the scan knows how long each record is and counts what the decoder will build.
Of the limits of a transport the scans use the part for the verifier, so this is what they take.

* `scanRvlu` — the walk over the bytes of a module;
* `scanNative`, `scanNativeDeclarations` — the walks over the two native sidecars;
* `readNativeBody`, `readNativeDeclarations` — their readers, which pay for every vector at a meter.
-/

/-- `usize::MAX` of a target with 64 bits. -/
def usizeMax : Nat := 2 ^ 64 - 1

/-- `TransportErrorKind`. -/
inductive TransportErrorKind where
  | invalidFormat | limitExceeded | allocationFailed | bytecode | officialChunk
  | officialTranslation
  deriving DecidableEq, Repr

/-- `TransportError`. -/
structure TransportError where
  kind : TransportErrorKind
  offset : Nat
  detail : String
  deriving DecidableEq, Repr

/-- The function `invalid`. -/
def invalid (offset : Nat) (detail : String) : TransportError := ⟨.invalidFormat, offset, detail⟩

/-- The function `limit`. -/
def limit (detail : String) : TransportError := ⟨.limitExceeded, 0, detail⟩

/-- The function `allocated`. -/
def allocated (detail : String) : TransportError := ⟨.allocationFailed, 0, detail⟩

/-- `checked_add`. -/
def checkedAdd (left right : Nat) : Except TransportError Nat :=
  if left + right > usizeMax then .error (limit "傳輸長度溢位") else .ok (left + right)

/-- `checked_mul`. -/
def checkedMul (left right : Nat) : Except TransportError Nat :=
  if left * right > usizeMax then .error (limit "傳輸容量溢位") else .ok (left * right)

/-! ### The cursor -/

/-- Programs of a `Cursor`. -/
abbrev Scan := Wire.Reader TransportError

/-- `Cursor::take`.  No slice is so long that the end of a part of it overflows, so an overflow is
    a part that is not there. -/
def take (size : Nat) : Scan (List UInt8) :=
  Wire.take (fun location =>
    invalid location (if location + size > usizeMax then "長度溢位" else "資料截斷")) size

/-- `Cursor::take` of bytes that are not looked at. -/
def skip (size : Nat) : Scan Unit := do
  let _ ← take size
  pure ()

/-- `Cursor::u8`. -/
def u8 : Scan UInt8 := do
  let bytes ← take 1
  pure (UInt8.ofNat (ofLittleEndian bytes))

/-- `Cursor::u16`. -/
def u16 : Scan UInt16 := do
  let bytes ← take 2
  pure (UInt16.ofNat (ofLittleEndian bytes))

/-- `Cursor::u32`. -/
def u32 : Scan UInt32 := do
  let bytes ← take 4
  pure (UInt32.ofNat (ofLittleEndian bytes))

/-- `Cursor::section` and `Cursor::blob`. -/
def «section» : Scan (List UInt8) := do
  let size ← u32
  take size.toNat

/-- Fail with an error at the last byte read. -/
def failBehind {α : Type} (detail : String) : Scan α := do
  let position ← location
  Wire.fail (invalid (position - 1) detail)

/-- A program that has to use up its bytes: `Cursor::new` in front of it and `Cursor::end`
    behind it. -/
def runSection {α : Type} (program : Scan α) (bytes : List UInt8) : Except TransportError α :=
  runAt (do
    let result ← program
    finished fun position => invalid position "多餘尾端資料"
    pure result) bytes 0

/-- Nothing behind the tag 0, and `size` bytes behind the tag 1. -/
def scanOptional (size : Nat) (detail : String) : Scan Unit := do
  let tag ← u8
  match tag with
  | 0 => pure ()
  | 1 => skip size
  | _ => failBehind detail

/-! ### The RVLU bytes -/

/-- `scan_close_path`. -/
def scanClosePath (limits : VerifyLimits) : Scan Nat := do
  skip (1 + 16 + 4)
  scanOptional 4 "RVLU close target tag 無效"
  let bindings ← u32
  reject (limits.maxConstants < bindings.toNat) (limit "RVLU close binding count 超限")
  let size ← compute (checkedMul bindings.toNat 8)
  skip size
  let registers ← u32
  reject (limits.maxRegisters.toNat < registers.toNat ∨ registers.toNat ≠ bindings.toNat)
    (limit "RVLU close register count 無效")
  let size ← compute (checkedMul registers.toNat 2)
  skip size
  pure bindings.toNat

/-- One constant. -/
def scanConstant : Scan Unit := do
  let tag ← u8
  match tag with
  | 0 | 1 => skip 8
  | 2 | 3 => do
    let _ ← «section»
    pure ()
  | 4 => skip 1
  | _ => failBehind "RVLU constant tag 無效"

/-- `scan_constants`. -/
def scanConstants (bytes : List UInt8) (limits : VerifyLimits) : Except TransportError Nat :=
  runSection (do
    let count ← u32
    reject (limits.maxConstants < count.toNat) (limit "RVLU constant count 超限")
    iterate (fun _ => scanConstant) count.toNat ()
    pure count.toNat) bytes

/-- `scan_result_mode`. -/
def scanResultMode : Scan Unit := do
  let tag ← u8
  match tag with
  | 0 => skip 2
  | 1 => pure ()
  | _ => failBehind "RVLU result mode 無效"

/-- The operands behind an opcode. -/
def scanOperands (opcode : UInt8) : Scan Unit :=
  match opcode with
  | 0 | 11 | 12 => skip 6
  | 1 | 2 | 3 | 4 | 17 => skip 4
  | 5 => skip 2
  | 6 | 7 => skip 6
  | 8 => skip 5
  | 9 => skip 7
  | 10 => skip 4
  | 13 | 14 => do
    skip 4
    scanResultMode
  | 15 | 16 => do
    skip 2
    scanResultMode
  | 18 => skip 12
  | 19 => skip 16
  | _ => failBehind "RVLU opcode 無效"

/-- The close path of an instruction, if it has one. -/
def scanInstructionClose (limits : VerifyLimits) (closeBindings : Nat) : Scan Nat := do
  let tag ← u8
  match tag with
  | 0 => pure closeBindings
  | 1 => do
    let bindings ← scanClosePath limits
    compute (checkedAdd closeBindings bindings)
  | _ => failBehind "RVLU instruction close tag 無效"

/-- One instruction; the bindings of its close path are added to those counted so far. -/
def scanInstruction (limits : VerifyLimits) (closeBindings : Nat) : Scan Nat := do
  let opcode ← u8
  scanOperands opcode
  skip (1 + 16)
  scanInstructionClose limits closeBindings

/-- `scan_instructions`: the instructions, and the bindings of their close paths. -/
def scanInstructions (bytes : List UInt8) (limits : VerifyLimits) :
    Except TransportError (Nat × Nat) :=
  runSection (do
    let count ← u32
    reject (limits.maxInstructions < count.toNat) (limit "RVLU instruction count 超限")
    let closeBindings ← iterate (scanInstruction limits) count.toNat 0
    pure (count.toNat, closeBindings)) bytes

/-- One upvalue. -/
def scanUpvalue : Scan Unit := do
  skip 2
  let tag ← u8
  match tag with
  | 0 => skip 8
  | 1 => skip 2
  | _ => failBehind "RVLU upvalue source tag 無效"

/-- One close path of the metadata. -/
def scanMetadataClose (limits : VerifyLimits) (closeBindings : Nat) : Scan Nat := do
  let bindings ← scanClosePath limits
  compute (checkedAdd closeBindings bindings)

/-- `scan_metadata`: the bindings, the upvalues, and the bindings of the close paths. -/
def scanMetadata (bytes : List UInt8) (limits : VerifyLimits) :
    Except TransportError (Nat × Nat × Nat) :=
  runSection (do
    let bindings ← u32
    reject (limits.maxConstants < bindings.toNat) (limit "RVLU metadata binding count 超限")
    let size ← compute (checkedMul bindings.toNat 10)
    skip size
    let upvalues ← u32
    reject (limits.maxUpvaluesPerPrototype < upvalues.toNat)
      (limit "RVLU metadata upvalue count 超限")
    iterate (fun _ => scanUpvalue) upvalues.toNat ()
    let close ← u32
    reject (limits.maxConstants < close.toNat) (limit "RVLU metadata close count 超限")
    let closeBindings ← iterate (scanMetadataClose limits) close.toNat 0
    pure (bindings.toNat, upvalues.toNat, closeBindings)) bytes

/-- The environment source of a frame. -/
def scanEnvironment : Scan Unit := do
  let tag ← u8
  match tag with
  | 0 => pure ()
  | 1 => skip 6
  | 2 | 3 => skip 2
  | _ => failBehind "RVLU env tag 無效"

/-- The fields of a prototype record in front of its sections. -/
def scanPrototypeHeader : Scan Unit := do
  skip 8
  scanOptional 4 "RVLU parent tag 無效"
  skip (16 + 2 + 2 + 1)
  scanOptional 10 "RVLU vararg tag 無效"
  skip 10
  scanEnvironment
  skip (1 + 2 + 8)

/-- The three sections of a prototype record: constants, instructions, metadata. -/
structure PrototypeSections where
  constants : List UInt8
  instructions : List UInt8
  metadata : List UInt8

/-- The walk over a prototype record, up to its sections. -/
def scanPrototypeSections : Scan PrototypeSections := do
  scanPrototypeHeader
  let constants ← «section»
  let instructions ← «section»
  let metadata ← «section»
  pure ⟨constants, instructions, metadata⟩

/-- `RvluCounts`. -/
structure RvluCounts where
  prototypes : Nat
  instructions : Nat
  constants : Nat
  metadataQuadratic : Nat
  deriving DecidableEq, Repr

/-- The work that the metadata of a prototype is charged with. -/
def metadataWork (bindings upvalues instructions close : Nat) : Except TransportError Nat := do
  let bPlusClose ← checkedAdd bindings close
  let iPlusClose ← checkedAdd instructions close
  let bindingWork ← checkedMul bPlusClose bPlusClose
  let upvalueWork ← checkedMul upvalues upvalues
  let sum ← checkedAdd bindingWork upvalueWork
  let instructionWork ← checkedMul iPlusClose iPlusClose
  checkedAdd sum instructionWork

/-- The counts behind one prototype record. -/
def scanRecord (limits : VerifyLimits) (record : List UInt8) (stats : RvluCounts) :
    Except TransportError RvluCounts := do
  let sections ← runSection scanPrototypeSections record
  let constantCount ← scanConstants sections.constants limits
  let constants ← checkedAdd stats.constants constantCount
  let (instructionCount, inlineClose) ← scanInstructions sections.instructions limits
  let instructions ← checkedAdd stats.instructions instructionCount
  let (bindings, upvalues, metadataClose) ← scanMetadata sections.metadata limits
  let close ← checkedAdd inlineClose metadataClose
  let work ← metadataWork bindings upvalues instructionCount close
  let metadataQuadratic ← checkedAdd stats.metadataQuadratic work
  Check.reject (limits.maxConstants < constants ∨ limits.maxInstructions < instructions)
    (limit "RVLU instruction/constant count 超限")
  .ok ⟨stats.prototypes, instructions, constants, metadataQuadratic⟩

/-- One record of the prototype section. -/
def scanPrototype (limits : VerifyLimits) (stats : RvluCounts) : Scan RvluCounts := do
  let record ← «section»
  compute (scanRecord limits record stats)

/-- The prototype section. -/
def scanPrototypes (bytes : List UInt8) (limits : VerifyLimits) :
    Except TransportError RvluCounts :=
  runSection (do
    let count ← u32
    reject (limits.maxPrototypes < count.toNat) (limit "RVLU prototype count 超限")
    iterate (scanPrototype limits) count.toNat ⟨count.toNat, 0, 0, 0⟩) bytes

/-- The header of a module; the result is its prototype section. -/
def scanModuleHeader (profile : LuaProfile) : Scan (List UInt8) := do
  let magic ← take 4
  reject (magic ≠ rvluMagic) (invalid 0 "RVLU magic 不符")
  let version ← u16
  reject (version ≠ 2) (invalid 4 "RVLU format version 不支援")
  let tag ← u8
  reject (tag ≠ if profile = .lua55 then 0 else 1) (invalid 6 "RVLU profile 不符")
  let numericConfig ← u8
  reject (numericConfig ≠ 1) (invalid 7 "RVLU numeric config 不符")
  skip 16
  «section»

/-- `scan_rvlu`. -/
def scanRvlu (rvlu : List UInt8) (profile : LuaProfile) (limits : VerifyLimits) :
    Except TransportError RvluCounts := do
  Check.reject (limits.maxModuleBytes < rvlu.length) (limit "RVLU bytes 超限")
  let prototypes ← runSection (scanModuleHeader profile) rvlu
  scanPrototypes prototypes limits

/-! ### Native debug data -/

/-- `NativeLocal`. -/
structure NativeLocal where
  binding : BytecodeBindingId
  register : Register
  slot : UInt8
  initializedPc : UInt32
  startPc : UInt32
  endPc : UInt32
  name : List UInt8
  deriving DecidableEq

/-- `NativePrototypeDebug`. -/
structure NativePrototypeDebug where
  prototype : ProtoId
  lineDefined : UInt32
  lastLineDefined : UInt32
  lines : List UInt32
  locals : List NativeLocal
  upvalueNames : List (Option (List UInt8))
  maxActiveLocals : UInt8
  deriving DecidableEq

/-- `NativeDebugCandidate`; the temporaries and the other pcs do not travel, they are empty
    behind the reader. -/
structure NativeDebugCandidate where
  sourceName : List UInt8
  prototypes : List NativePrototypeDebug
  deriving DecidableEq

/-- `NativeCounts`. -/
structure NativeCounts where
  lines : Nat
  locals : Nat
  names : Nat
  deriving DecidableEq, Repr

/-- One local of a prototype. -/
def scanNativeLocal : Scan Unit := do
  skip 23
  let _ ← «section»
  pure ()

/-- One name of an upvalue. -/
def scanNativeName : Scan Unit := do
  let tag ← u8
  match tag with
  | 0 => pure ()
  | 1 => do
    let _ ← «section»
    pure ()
  | _ => failBehind "native name tag 無效"

/-- The debug data of one prototype. -/
def scanNativePrototype (limits : VerifyLimits) (stats : NativeCounts) : Scan NativeCounts := do
  skip 13
  let lineCount ← u32
  let lines ← compute (checkedAdd stats.lines lineCount.toNat)
  reject (limits.maxInstructions < lines) (limit "native line count 超限")
  let size ← compute (checkedMul lineCount.toNat 4)
  skip size
  let localCount ← u32
  let locals ← compute (checkedAdd stats.locals localCount.toNat)
  reject (limits.maxConstants < locals) (limit "native local count 超限")
  iterate (fun _ => scanNativeLocal) localCount.toNat ()
  let nameCount ← u32
  let names ← compute (checkedAdd stats.names nameCount.toNat)
  reject (limits.maxUpvaluesPerPrototype < nameCount.toNat) (limit "native name count 超限")
  iterate (fun _ => scanNativeName) nameCount.toNat ()
  pure ⟨lines, locals, names⟩

/-- `scan_native`. -/
def scanNative (body : List UInt8) (limits : VerifyLimits) : Except TransportError NativeCounts :=
  runSection (do
    let _ ← «section»
    let count ← u32
    reject (limits.maxPrototypes < count.toNat ∨ body.length / 25 < count.toNat)
      (limit "native prototype count 超限")
    iterate (scanNativePrototype limits) count.toNat ⟨0, 0, 0⟩) body

/-! ### The meter -/

/-- What the compiler and the allocator decide: the sizes of the records in bytes, and the
    capacity that a vector gets at the `n`-th request, if it gets one. -/
structure Backing where
  planCall : Nat
  nativePrototype : Nat
  nativeLocal : Nat
  upvalueName : Nat
  answer : Nat → Option Nat

/-- `AllocationMeter`, with the number of requests so far. -/
structure AllocationMeter where
  used : Nat
  limit : Nat
  requests : Nat
  deriving DecidableEq, Repr

/-- `native_reserve_exact` of an empty vector: its capacity behind the request. -/
def nativeReserveExact (answer : Option Nat) (additional : Nat) : Except TransportError Nat :=
  if max additional 4 * 2 > usizeMax then .error (limit "native candidate 容量超限")
  else if additional = 0 then .ok 0
  else
    match answer with
    | none => .error (allocated "native candidate 配置失敗")
    | some capacity =>
      if capacity > max additional 4 * 2 then .error (limit "native candidate 容量超限")
      else .ok capacity

/-- `AllocationMeter::reserve` of a new vector of `count` elements. -/
def AllocationMeter.reserve (backing : Backing) (meter : AllocationMeter) (size count : Nat) :
    Except TransportError AllocationMeter := do
  let requested ← checkedMul count size
  let total ← checkedAdd meter.used requested
  Check.reject (meter.limit < total)
    (Transport.limit "native candidate 配置超出 aggregate 預准入")
  let capacity ← nativeReserveExact (backing.answer meter.requests) count
  let bytes ← checkedMul capacity size
  let used ← checkedAdd meter.used bytes
  Check.reject (meter.limit < used)
    (Transport.limit "native candidate 實際容量超出 aggregate 預准入")
  .ok ⟨used, meter.limit, meter.requests + 1⟩

/-- `read_copy`. -/
def readCopy (backing : Backing) (meter : AllocationMeter) :
    Scan (List UInt8 × AllocationMeter) := do
  let bytes ← «section»
  let meter ← compute (meter.reserve backing 1 bytes.length)
  pure (bytes, meter)

/-- One local of a prototype. -/
def readNativeLocal (backing : Backing) (locals : List NativeLocal × AllocationMeter) :
    Scan (List NativeLocal × AllocationMeter) := do
  let function ← u32
  let ordinal ← u32
  let register ← u16
  let slot ← u8
  let initializedPc ← u32
  let startPc ← u32
  let endPc ← u32
  let name ← readCopy backing locals.2
  pure (locals.1 ++ [⟨⟨function, ordinal⟩, register, slot, initializedPc, startPc, endPc, name.1⟩],
    name.2)

/-- One name of an upvalue. -/
def readNativeName (backing : Backing) (names : List (Option (List UInt8)) × AllocationMeter) :
    Scan (List (Option (List UInt8)) × AllocationMeter) := do
  let tag ← u8
  match tag with
  | 0 => pure (names.1 ++ [none], names.2)
  | 1 => do
    let name ← readCopy backing names.2
    pure (names.1 ++ [some name.1], name.2)
  | _ => failBehind "native upvalue-name tag 無效"

/-- One line. -/
def readNativeLine (lines : List UInt32) : Scan (List UInt32) := do
  let line ← u32
  pure (lines ++ [line])

/-- The debug data of one prototype, out of a body of the given length. -/
def readNativePrototype (backing : Backing) (limits : VerifyLimits) (bodyLength : Nat)
    (prototypes : List NativePrototypeDebug × AllocationMeter) :
    Scan (List NativePrototypeDebug × AllocationMeter) := do
  let prototype ← u32
  let lineDefined ← u32
  let lastLineDefined ← u32
  let maxActiveLocals ← u8
  let lineCount ← u32
  reject (limits.maxInstructions < lineCount.toNat ∨ bodyLength / 4 < lineCount.toNat)
    (limit "native line count 超限")
  let meter ← compute (prototypes.2.reserve backing 4 lineCount.toNat)
  let lines ← iterate readNativeLine lineCount.toNat []
  let localCount ← u32
  reject (limits.maxConstants < localCount.toNat ∨ bodyLength / 27 < localCount.toNat)
    (limit "native local count 超限")
  let meter ← compute (meter.reserve backing backing.nativeLocal localCount.toNat)
  let locals ← iterate (readNativeLocal backing) localCount.toNat ([], meter)
  let nameCount ← u32
  reject (limits.maxUpvaluesPerPrototype < nameCount.toNat ∨ bodyLength < nameCount.toNat)
    (limit "native upvalue-name count 超限")
  let meter ← compute (locals.2.reserve backing backing.upvalueName nameCount.toNat)
  let names ← iterate (readNativeName backing) nameCount.toNat ([], meter)
  pure (prototypes.1 ++ [⟨prototype, lineDefined, lastLineDefined, lines, locals.1, names.1,
    maxActiveLocals⟩], names.2)

/-- `read_native_body`. -/
def readNativeBody (backing : Backing) (body : List UInt8) (limits : VerifyLimits)
    (meter : AllocationMeter) : Except TransportError (NativeDebugCandidate × AllocationMeter) :=
  runSection (do
    let sourceName ← readCopy backing meter
    let count ← u32
    reject (limits.maxPrototypes < count.toNat ∨ body.length / 25 < count.toNat)
      (limit "native prototype count 超限")
    let meter ← compute (sourceName.2.reserve backing backing.nativePrototype count.toNat)
    let prototypes ← iterate (readNativePrototype backing limits body.length) count.toNat ([], meter)
    pure (⟨sourceName.1, prototypes.1⟩, prototypes.2)) body

/-! ### Native helper declarations -/

/-- `OfficialPlanCall`, as the transport knows it: the builtin is always the raw list write. -/
structure OfficialPlanCall where
  prototype : ProtoId
  callPc : InstructionOffset
  functionRegister : Register
  sourceUpvalue : UpvalueId
  inputs : List Register
  openTail : Option Register
  deriving DecidableEq

/-- `NativeDeclarationCounts`. -/
structure NativeDeclarationCounts where
  calls : Nat
  debug : Option NativeCounts
  deriving DecidableEq, Repr

/-- `NATIVE_DECLARATION_RECORD_BYTES`. -/
def nativeDeclarationRecordBytes : Nat := 24

/-- Stop with an error behind the bytes read so far. -/
def rejectHere (c : Prop) [Decidable c] (detail : String) : Scan Unit := do
  let position ← location
  reject c (invalid position detail)

/-- One input of a declaration: the register `offset` behind the base. -/
def scanInput (base : UInt16) (offset : Nat) : Scan Unit := do
  let input ← u16
  rejectHere (base.toNat + offset > 65535) "native helper register 溢位"
  rejectHere (input.toNat ≠ base.toNat + offset) "native helper inputs 不連續"

/-- The tail and the builtin of a declaration. -/
def scanTail (base : UInt16) : Scan Unit := do
  let present ← u8
  rejectHere (present ≠ 1) "native helper tail/builtin 無效"
  let tail ← u16
  rejectHere (base.toNat + 4 > 65535) "native helper tail register 溢位"
  rejectHere (tail.toNat ≠ base.toNat + 4) "native helper tail/builtin 無效"
  let builtin ← u8
  rejectHere (builtin ≠ 0) "native helper tail/builtin 無效"

/-- `last >= (prototype, pc)`. -/
def notBefore (last : UInt32 × UInt32) (prototype pc : UInt32) : Prop :=
  prototype < last.1 ∨ prototype = last.1 ∧ pc ≤ last.2

instance (last : UInt32 × UInt32) (prototype pc : UInt32) :
    Decidable (notBefore last prototype pc) :=
  inferInstanceAs (Decidable (_ ∨ _))

/-- One declaration, behind the place of the one before. -/
def scanDeclaration (previous : Option (UInt32 × UInt32)) : Scan (Option (UInt32 × UInt32)) := do
  let prototype ← u32
  let pc ← u32
  let base ← u16
  let _upvalue ← u16
  let inputCount ← u16
  rejectHere (inputCount ≠ 3) "native helper input count 無效"
  scanInput base 1
  scanInput base 2
  scanInput base 3
  scanTail base
  rejectHere (∃ last ∈ previous, notBefore last prototype pc) "native helper call 重複或順序無效"
  pure (some (prototype, pc))

/-- The debug data behind the declarations. -/
def scanDeclarationDebug (limits : VerifyLimits) : Scan (Option NativeCounts) := do
  let tag ← u8
  match tag with
  | 0 => pure none
  | 1 => do
    let body ← «section»
    let counts ← compute (scanNative body limits)
    pure (some counts)
  | _ => failBehind "native helper debug tag 無效"

/-- `scan_native_declarations`. -/
def scanNativeDeclarations (body : List UInt8) (limits : VerifyLimits) :
    Except TransportError NativeDeclarationCounts :=
  runSection (do
    skip 32
    let calls ← u32
    reject (calls.toNat = 0 ∨ limits.maxInstructions < calls.toNat
        ∨ body.length / nativeDeclarationRecordBytes < calls.toNat)
      (limit "native helper call count 超限")
    let _ ← iterate scanDeclaration calls.toNat none
    let debug ← scanDeclarationDebug limits
    pure ⟨calls.toNat, debug⟩) body

/-- One declaration. -/
def readDeclaration (backing : Backing) (calls : List OfficialPlanCall × AllocationMeter) :
    Scan (List OfficialPlanCall × AllocationMeter) := do
  let prototype ← u32
  let callPc ← u32
  let functionRegister ← u16
  let sourceUpvalue ← u16
  let inputCount ← u16
  rejectHere (inputCount ≠ 3) "native helper input count 無效"
  let meter ← compute (calls.2.reserve backing 2 3)
  let first ← u16
  let second ← u16
  let third ← u16
  let present ← u8
  rejectHere (present ≠ 1) "native helper open tail 缺失"
  let tail ← u16
  let builtin ← u8
  rejectHere (builtin ≠ 0) "native helper builtin 未知"
  pure (calls.1 ++ [⟨prototype, callPc, functionRegister, sourceUpvalue, [first, second, third],
    some tail⟩], meter)

/-- The debug data behind the declarations. -/
def readDeclarationDebug (backing : Backing) (limits : VerifyLimits) (meter : AllocationMeter) :
    Scan (Option NativeDebugCandidate × AllocationMeter) := do
  let tag ← u8
  match tag with
  | 0 => pure (none, meter)
  | 1 => do
    let body ← «section»
    let debug ← compute (readNativeBody backing body limits meter)
    pure (some debug.1, debug.2)
  | _ => failBehind "native helper debug tag 無效"

/-- `read_native_declarations`. -/
def readNativeDeclarations (backing : Backing) (body : List UInt8) (limits : VerifyLimits)
    (meter : AllocationMeter) :
    Except TransportError ((List OfficialPlanCall × Option NativeDebugCandidate)
      × AllocationMeter) :=
  runSection (do
    skip 32
    let count ← u32
    reject (count.toNat = 0 ∨ limits.maxInstructions < count.toNat
        ∨ body.length / nativeDeclarationRecordBytes < count.toNat)
      (limit "native helper call count 超限")
    let meter ← compute (meter.reserve backing backing.planCall count.toNat)
    let calls ← iterate (readDeclaration backing) count.toNat ([], meter)
    let debug ← readDeclarationDebug backing limits calls.2
    pure ((calls.1, debug.1), debug.2)) body

end RivetLua.Bytecode.Transport
