import RivetLua.Lib.Wire
import RivetLua.Bytecode.Verify

namespace RivetLua.Bytecode

open RivetLua.Core Wire

/-!
# Bytecode — the RVLU v2 codec

All numbers are little-endian.  A module is a header and one section of prototype records; a
record ends in three sections for constants, instructions and metadata.  A section is preceded
by its length, and its reader has to use it up.

* `encodeModule` — verify, then write;
* `decodeModule` — read, then verify;
* `decodePrototypes` — the loop over the records, which hands each record what is left of the
  instruction and constant limits.
-/

/-- Readers of RVLU bytes. -/
abbrev Read := Wire.Reader BytecodeError

/-- Writers of RVLU bytes. -/
abbrev Write := Wire.Output BytecodeError

/-- `RVLU_MAGIC`. -/
def rvluMagic : List UInt8 := [82, 86, 76, 85]

/-! ### Primitive readers -/

namespace Reader

/-- The next `count` bytes. -/
def take (count : Nat) : Read (List UInt8) :=
  Wire.take (fun location => verify location "RVLU bytes 截斷") count

/-- A byte. -/
def u8 : Read UInt8 := do
  let bytes ← take 1
  pure (UInt8.ofNat (ofLittleEndian bytes))

/-- A 16-bit number. -/
def u16 : Read UInt16 := do
  let bytes ← take 2
  pure (UInt16.ofNat (ofLittleEndian bytes))

/-- A 32-bit number. -/
def u32 : Read UInt32 := do
  let bytes ← take 4
  pure (UInt32.ofNat (ofLittleEndian bytes))

/-- A 64-bit number. -/
def u64 : Read UInt64 := do
  let bytes ← take 8
  pure (UInt64.ofNat (ofLittleEndian bytes))

/-- A signed 64-bit number. -/
def i64 : Read Int64 := do
  let bits ← u64
  pure bits.toInt64

/-- A count, at most `limitValue`. -/
def count (limitValue : Nat) (message : String) : Read Nat := do
  let offset ← location
  let value ← u32
  reject (limitValue < value.toNat) (limit offset message)
  pure value.toNat

/-- A byte string behind its length. -/
def blob : Read (List UInt8) := do
  let length ← u32
  take length.toNat

end Reader

/-- The bytes of a section and the position of the first of them. -/
structure Section where
  bytes : List UInt8
  start : Nat

/-- `Reader::section`. -/
def Reader.section : Read Section := do
  let length ← u32
  let start ← location
  let bytes ← take length.toNat
  pure ⟨bytes, start⟩

/-- Fail with an error at the last byte read. -/
def failBehind {α : Type} (message : String) : Read α := do
  let position ← location
  Wire.fail (verify (position - 1) message)

/-! ### Primitive writers -/

namespace Writer

/-- A byte. -/
def u8 (value : UInt8) : Write := .ok [value]

/-- A 16-bit number. -/
def u16 (value : UInt16) : Write := .ok (littleEndian 2 value.toNat)

/-- A 32-bit number. -/
def u32 (value : UInt32) : Write := .ok (littleEndian 4 value.toNat)

/-- A 64-bit number. -/
def u64 (value : UInt64) : Write := .ok (littleEndian 8 value.toNat)

/-- A signed 64-bit number. -/
def i64 (value : Int64) : Write := u64 value.toUInt64

/-- `writer.u32(checked_u32(value, 0, message)?)`. -/
def length (value : Nat) (message : String) : Write :=
  if value < 2 ^ 32 then .ok (littleEndian 4 value) else .error (limit 0 message)

/-- `if c { return Err(e) }` inside a writer. -/
def reject (c : Prop) [Decidable c] (e : BytecodeError) : Write :=
  if c then .error e else .ok []

/-- A byte string behind its length. -/
def blob (value : List UInt8) : Write := length value.length "RVLU blob 過大" ++ .ok value

/-- A list behind its length. -/
def list {α : Type} (write : α → Write) (items : List α) (message : String) : Write :=
  length items.length message ++ .each write items

/-- What another writer produced, behind its length. -/
def «section» (body : Write) (message : String) : Write :=
  match body with
  | .error e => .error e
  | .ok bytes => length bytes.length message ++ .ok bytes

end Writer

/-! ### Small records -/

/-- `write_span`. -/
def writeSpan (span : BytecodeSpan) : Write := Writer.u64 span.startByte ++ Writer.u64 span.endByte

/-- `read_span`. -/
def readSpan : Read BytecodeSpan := do
  let startByte ← Reader.u64
  let endByte ← Reader.u64
  let position ← location
  reject (endByte < startByte) (verify (position - 16) "RVLU span 無效")
  pure ⟨startByte, endByte⟩

/-- `write_binding`. -/
def writeBinding (binding : BytecodeBindingId) : Write :=
  Writer.u32 binding.function ++ Writer.u32 binding.ordinal

/-- `read_binding`. -/
def readBinding : Read BytecodeBindingId := do
  let function ← Reader.u32
  let ordinal ← Reader.u32
  pure ⟨function, ordinal⟩

/-- `u8::from(bool)`. -/
def writeFlag (value : Bool) : Write := Writer.u8 (if value then 1 else 0)

/-- A byte that has to be 0 or 1. -/
def readFlag (message : String) : Read Bool := do
  let tag ← Reader.u8
  match tag with
  | 0 => pure false
  | 1 => pure true
  | _ => failBehind message

/-- An option: 0, or 1 and the value. -/
def writeOption {α : Type} (write : α → Write) : Option α → Write
  | some value => Writer.u8 1 ++ write value
  | none => Writer.u8 0

/-- An option: 0, or 1 and the value. -/
def readOption {α : Type} (read : Read α) (message : String) : Read (Option α) := do
  let tag ← Reader.u8
  match tag with
  | 0 => pure none
  | 1 => do pure (some (← read))
  | _ => failBehind message

/-- `write_optional_proto`. -/
def writeOptionalProto (proto : Option ProtoId) : Write := writeOption Writer.u32 proto

/-- `read_optional_proto`. -/
def readOptionalProto : Read (Option ProtoId) := readOption Reader.u32 "RVLU parent flag 無效"

/-- `write_result_mode`. -/
def writeResultMode : ResultMode → Write
  | .fixed count => Writer.u8 0 ++ Writer.u16 count
  | .all => Writer.u8 1

/-- `read_result_mode`. -/
def readResultMode : Read ResultMode := do
  let tag ← Reader.u8
  match tag with
  | 0 => do pure (.fixed (← Reader.u16))
  | 1 => pure .all
  | _ => failBehind "RVLU result mode 無效"

/-! ### Enumerations -/

/-- `profile_tag`. -/
def profileTag : LuaProfile → UInt8
  | .lua55 => 0
  | .lua54 => 1

/-- `parse_profile`. -/
def parseProfile (tag : UInt8) (offset : Nat) : Except BytecodeError LuaProfile :=
  match tag with
  | 0 => .ok .lua55
  | 1 => .ok .lua54
  | _ => .error (verify offset "RVLU profile tag 無效")

/-- `unary_tag`. -/
def unaryTag : UnaryOperation → UInt8
  | .negate => 0
  | .not => 1
  | .length => 2
  | .bitNot => 3

/-- `parse_unary`. -/
def parseUnary (tag : UInt8) (offset : Nat) : Except BytecodeError UnaryOperation :=
  match tag with
  | 0 => .ok .negate
  | 1 => .ok .not
  | 2 => .ok .length
  | 3 => .ok .bitNot
  | _ => .error (verify offset "RVLU unary op 無效")

/-- `binary_tag`. -/
def binaryTag : BinaryOperation → UInt8
  | .or => 0
  | .and => 1
  | .equal => 2
  | .notEqual => 3
  | .less => 4
  | .lessEqual => 5
  | .greater => 6
  | .greaterEqual => 7
  | .pipe => 8
  | .bitXor => 9
  | .ampersand => 10
  | .shiftLeft => 11
  | .shiftRight => 12
  | .concat => 13
  | .add => 14
  | .subtract => 15
  | .multiply => 16
  | .divide => 17
  | .floorDivide => 18
  | .modulo => 19
  | .power => 20

/-- `parse_binary`. -/
def parseBinary (tag : UInt8) (offset : Nat) : Except BytecodeError BinaryOperation :=
  match tag with
  | 0 => .ok .or
  | 1 => .ok .and
  | 2 => .ok .equal
  | 3 => .ok .notEqual
  | 4 => .ok .less
  | 5 => .ok .lessEqual
  | 6 => .ok .greater
  | 7 => .ok .greaterEqual
  | 8 => .ok .pipe
  | 9 => .ok .bitXor
  | 10 => .ok .ampersand
  | 11 => .ok .shiftLeft
  | 12 => .ok .shiftRight
  | 13 => .ok .concat
  | 14 => .ok .add
  | 15 => .ok .subtract
  | 16 => .ok .multiply
  | 17 => .ok .divide
  | 18 => .ok .floorDivide
  | 19 => .ok .modulo
  | 20 => .ok .power
  | _ => .error (verify offset "RVLU binary op 無效")

/-- `exit_tag`. -/
def exitTag : BytecodeExitKind → UInt8
  | .normal => 0
  | .return => 1
  | .break => 2
  | .goto => 3
  | .error => 4

/-- `parse_exit`. -/
def parseExit (tag : UInt8) (offset : Nat) : Except BytecodeError BytecodeExitKind :=
  match tag with
  | 0 => .ok .normal
  | 1 => .ok .return
  | 2 => .ok .break
  | 3 => .ok .goto
  | 4 => .ok .error
  | _ => .error (verify offset "RVLU close exit kind 無效")

/-- Read a tag and parse it; errors name the given offset. -/
def readTag {α : Type} (parse : UInt8 → Nat → Except BytecodeError α) (offset : Nat) : Read α := do
  let tag ← Reader.u8
  compute (parse tag offset)

/-! ### Instructions -/

/-- The number of an opcode. -/
def opcodeTag : Instruction → UInt8
  | .loadConst _ _ => 0
  | .loadNil _ _ => 1
  | .move _ _ => 2
  | .getUpvalue _ _ => 3
  | .setUpvalue _ _ => 4
  | .newTable _ => 5
  | .getTable _ _ _ => 6
  | .setTable _ _ _ => 7
  | .unaryOp _ _ _ => 8
  | .binaryOp _ _ _ _ => 9
  | .jump _ => 10
  | .jumpIfFalse _ _ => 11
  | .closure _ _ => 12
  | .call _ _ _ => 13
  | .tailCall _ _ _ => 14
  | .vararg _ _ => 15
  | .ret _ _ => 16
  | .close _ _ => 17
  | .numericForPrepare _ _ _ _ _ => 18
  | .numericForNext _ _ _ _ _ _ => 19

/-- The operands of an instruction. -/
def writeOperands : Instruction → Write
  | .loadConst dest constant => Writer.u16 dest ++ Writer.u32 constant
  | .loadNil start count => Writer.u16 start ++ Writer.u16 count
  | .move dest src => Writer.u16 dest ++ Writer.u16 src
  | .getUpvalue dest upvalue => Writer.u16 dest ++ Writer.u16 upvalue
  | .setUpvalue upvalue src => Writer.u16 upvalue ++ Writer.u16 src
  | .newTable dest => Writer.u16 dest
  | .getTable dest table key => Writer.u16 dest ++ (Writer.u16 table ++ Writer.u16 key)
  | .setTable table key value => Writer.u16 table ++ (Writer.u16 key ++ Writer.u16 value)
  | .unaryOp dest op src => Writer.u16 dest ++ (Writer.u8 (unaryTag op) ++ Writer.u16 src)
  | .binaryOp dest op left right =>
    Writer.u16 dest ++ (Writer.u8 (binaryTag op) ++ (Writer.u16 left ++ Writer.u16 right))
  | .jump target => Writer.u32 target
  | .jumpIfFalse condition target => Writer.u16 condition ++ Writer.u32 target
  | .closure dest proto => Writer.u16 dest ++ Writer.u32 proto
  | .call base argCount resultMode | .tailCall base argCount resultMode =>
    Writer.u16 base ++ (Writer.u16 argCount ++ writeResultMode resultMode)
  | .vararg base resultMode | .ret base resultMode =>
    Writer.u16 base ++ writeResultMode resultMode
  | .close base count => Writer.u16 base ++ Writer.u16 count
  | .numericForPrepare control limit step visible exit =>
    Writer.u16 control ++ (Writer.u16 limit ++ (Writer.u16 step ++ (Writer.u16 visible
      ++ Writer.u32 exit)))
  | .numericForNext control limit step visible target exit =>
    Writer.u16 control ++ (Writer.u16 limit ++ (Writer.u16 step ++ (Writer.u16 visible
      ++ (Writer.u32 target ++ Writer.u32 exit))))

/-- `write_instruction`. -/
def writeInstruction (instruction : Instruction) : Write :=
  Writer.u8 (opcodeTag instruction) ++ writeOperands instruction

/-- The operands behind an opcode. -/
def readOperands (offset : Nat) (opcode : UInt8) : Read Instruction :=
  match opcode with
  | 0 => do pure (.loadConst (← Reader.u16) (← Reader.u32))
  | 1 => do pure (.loadNil (← Reader.u16) (← Reader.u16))
  | 2 => do pure (.move (← Reader.u16) (← Reader.u16))
  | 3 => do pure (.getUpvalue (← Reader.u16) (← Reader.u16))
  | 4 => do pure (.setUpvalue (← Reader.u16) (← Reader.u16))
  | 5 => do pure (.newTable (← Reader.u16))
  | 6 => do pure (.getTable (← Reader.u16) (← Reader.u16) (← Reader.u16))
  | 7 => do pure (.setTable (← Reader.u16) (← Reader.u16) (← Reader.u16))
  | 8 => do pure (.unaryOp (← Reader.u16) (← readTag parseUnary offset) (← Reader.u16))
  | 9 => do
    pure (.binaryOp (← Reader.u16) (← readTag parseBinary offset) (← Reader.u16) (← Reader.u16))
  | 10 => do pure (.jump (← Reader.u32))
  | 11 => do pure (.jumpIfFalse (← Reader.u16) (← Reader.u32))
  | 12 => do pure (.closure (← Reader.u16) (← Reader.u32))
  | 13 => do pure (.call (← Reader.u16) (← Reader.u16) (← readResultMode))
  | 14 => do pure (.tailCall (← Reader.u16) (← Reader.u16) (← readResultMode))
  | 15 => do pure (.vararg (← Reader.u16) (← readResultMode))
  | 16 => do pure (.ret (← Reader.u16) (← readResultMode))
  | 17 => do pure (.close (← Reader.u16) (← Reader.u16))
  | 18 => do
    pure (.numericForPrepare (← Reader.u16) (← Reader.u16) (← Reader.u16) (← Reader.u16)
      (← Reader.u32))
  | 19 => do
    pure (.numericForNext (← Reader.u16) (← Reader.u16) (← Reader.u16) (← Reader.u16)
      (← Reader.u32) (← Reader.u32))
  | _ => Wire.fail (verify offset "RVLU opcode 無效")

/-- `read_instruction`. -/
def readInstruction : Read Instruction := do
  let offset ← location
  let opcode ← Reader.u8
  readOperands offset opcode

/-! ### Frames, close paths and constants -/

/-- The environment source of a frame. -/
def writeEnvironmentSource : EnvironmentSource → Write
  | .rootExternal => Writer.u8 0
  | .parentFrame parent register => Writer.u8 1 ++ (Writer.u32 parent ++ Writer.u16 register)
  | .parentLocal upvalue => Writer.u8 2 ++ Writer.u16 upvalue
  | .parentUpvalue upvalue => Writer.u8 3 ++ Writer.u16 upvalue

/-- The environment source of a frame. -/
def readEnvironmentSource : Read EnvironmentSource := do
  let offset ← location
  let tag ← Reader.u8
  match tag with
  | 0 => pure .rootExternal
  | 1 => do pure (.parentFrame (← Reader.u32) (← Reader.u16))
  | 2 => do pure (.parentLocal (← Reader.u16))
  | 3 => do pure (.parentUpvalue (← Reader.u16))
  | _ => Wire.fail (verify offset "RVLU environment source 無效")

/-- `write_frame`. -/
def writeFrame (frame : FrameLayout) : Write :=
  Writer.u16 frame.registerLimit ++ (Writer.u16 frame.initialTop ++ (Writer.u16 frame.dynamicTop
    ++ (Writer.u16 frame.returnBase ++ (Writer.u16 frame.environment
    ++ (writeEnvironmentSource frame.environmentSource
    ++ writeFlag frame.registersStartAsNil)))))

/-- `read_frame`. -/
def readFrame : Read FrameLayout := do
  let registerLimit ← Reader.u16
  let initialTop ← Reader.u16
  let dynamicTop ← Reader.u16
  let returnBase ← Reader.u16
  let environment ← Reader.u16
  let environmentSource ← readEnvironmentSource
  let registersStartAsNil ← readFlag "RVLU frame nil flag 無效"
  pure ⟨registerLimit, initialTop, dynamicTop, returnBase, environment, environmentSource,
    registersStartAsNil⟩

/-- `write_close_path`. -/
def writeClosePath (close : BytecodeClosePath) : Write :=
  Writer.u8 (exitTag close.kind) ++ (writeSpan close.span ++ (Writer.u32 close.fromScope
    ++ (writeOption Writer.u32 close.targetScope
    ++ (Writer.list writeBinding close.bindings "RVLU close bindings 過大"
    ++ Writer.list Writer.u16 close.registers "RVLU close registers 過大"))))

/-- `read_close_path`. -/
def readClosePath (limits : VerifyLimits) : Read BytecodeClosePath := do
  let offset ← location
  let kind ← readTag parseExit offset
  let span ← readSpan
  let fromScope ← Reader.u32
  let targetScope ← readOption Reader.u32 "RVLU close target scope 無效"
  let bindingCount ← Reader.count limits.maxConstants "RVLU close bindings 超過限制"
  let bindings ← many readBinding bindingCount
  let registerCount ← Reader.count limits.maxRegisters.toNat "RVLU close registers 超過限制"
  let registers ← many Reader.u16 registerCount
  reject (bindings.length ≠ registers.length)
    (verify offset "RVLU close bindings/registers 長度不符")
  pure ⟨kind, span, fromScope, targetScope, bindings, registers⟩

/-- One constant. -/
def writeConstant : BytecodeConstant → Write
  | .integer value => Writer.u8 0 ++ Writer.i64 value
  | .floatBits bits => Writer.u8 1 ++ Writer.u64 bits
  | .name bytes => Writer.u8 2 ++ Writer.blob bytes
  | .string bytes => Writer.u8 3 ++ Writer.blob bytes
  | .boolean value => Writer.u8 4 ++ writeFlag value

/-- The flag of a boolean constant: it fails at the tag, not behind the flag. -/
def readBooleanConstant (tagOffset : Nat) : Read BytecodeConstant := do
  let value ← Reader.u8
  match value with
  | 0 => pure (.boolean false)
  | 1 => pure (.boolean true)
  | _ => Wire.fail (verify tagOffset "RVLU boolean constant 無效")

/-- One constant. -/
def readConstant : Read BytecodeConstant := do
  let tagOffset ← location
  let tag ← Reader.u8
  match tag with
  | 0 => do pure (.integer (← Reader.i64))
  | 1 => do pure (.floatBits (← Reader.u64))
  | 2 => do pure (.name (← Reader.blob))
  | 3 => do pure (.string (← Reader.blob))
  | 4 => readBooleanConstant tagOffset
  | _ => Wire.fail (verify tagOffset "RVLU constant tag 無效")

/-! ### The sections of a prototype -/

/-- `encode_constants`. -/
def encodeConstants (constants : List BytecodeConstant) (limits : VerifyLimits) : Write :=
  Writer.reject (limits.maxConstants < constants.length) (limit 0 "RVLU constant 數超過限制")
    ++ Writer.list writeConstant constants "RVLU constant 數過大"

/-- `decode_constants`. -/
def decodeConstants (bytes : List UInt8) (limits : VerifyLimits) (base : Nat) :
    Except BytecodeError (List BytecodeConstant) :=
  runAt (do
    let constants ← (do
      let count ← Reader.count limits.maxConstants "RVLU constant 數超過限制"
      many readConstant count)
    finished fun position => verify position "RVLU constants section 尾端 bytes 無效"
    pure constants) bytes base

/-- One instruction with its effect flags, span and close path. -/
def writeBytecodeInstruction (entry : BytecodeInstruction) : Write :=
  writeInstruction entry.instruction ++ (Writer.u8 entry.instruction.canonicalEffectFlags
    ++ (writeSpan entry.span ++ writeOption writeClosePath entry.closePath))

/-- One instruction with its effect flags, span and close path. -/
def readBytecodeInstruction (limits : VerifyLimits) : Read BytecodeInstruction := do
  let instruction ← readInstruction
  let effectOffset ← location
  let encodedEffects ← Reader.u8
  reject (encodedEffects &&& ~~~knownFlags ≠ 0)
    (verify effectOffset "RVLU instruction effect flags 含未知 bit")
  reject (encodedEffects ≠ instruction.canonicalEffectFlags)
    (verify effectOffset "RVLU instruction effect flags 與 canonical effect 不符")
  let span ← readSpan
  let closePath ← readOption (readClosePath limits) "RVLU instruction close flag 無效"
  pure ⟨instruction, span, closePath⟩

/-- `encode_instructions`. -/
def encodeInstructions (instructions : List BytecodeInstruction) (limits : VerifyLimits) : Write :=
  Writer.reject (limits.maxInstructions < instructions.length)
      (limit 0 "RVLU instruction 數超過限制")
    ++ Writer.list writeBytecodeInstruction instructions "RVLU instruction 數過大"

/-- `decode_instructions`. -/
def decodeInstructions (bytes : List UInt8) (limits : VerifyLimits) (base : Nat) :
    Except BytecodeError (List BytecodeInstruction) :=
  runAt (do
    let instructions ← (do
      let count ← Reader.count limits.maxInstructions "RVLU instruction 數超過限制"
      many (readBytecodeInstruction limits) count)
    finished fun position => verify position "RVLU instructions section 尾端 bytes 無效"
    pure instructions) bytes base

/-- One entry of the binding table. -/
def writeBindingRegister (entry : BytecodeBindingId × Register) : Write :=
  writeBinding entry.1 ++ Writer.u16 entry.2

/-- One entry of the binding table. -/
def readBindingRegister : Read (BytecodeBindingId × Register) := do
  let binding ← readBinding
  let register ← Reader.u16
  pure (binding, register)

/-- One upvalue. -/
def writeUpvalue (upvalue : BytecodeUpvalue) : Write :=
  Writer.u16 upvalue.id ++
    match upvalue.source with
    | .parentLocal binding => Writer.u8 0 ++ writeBinding binding
    | .parentUpvalue parent => Writer.u8 1 ++ Writer.u16 parent

/-- One upvalue. -/
def readUpvalue : Read BytecodeUpvalue := do
  let id ← Reader.u16
  let offset ← location
  let tag ← Reader.u8
  match tag with
  | 0 => do pure ⟨id, .parentLocal (← readBinding)⟩
  | 1 => do pure ⟨id, .parentUpvalue (← Reader.u16)⟩
  | _ => Wire.fail (verify offset "RVLU upvalue source 無效")

/-- What the metadata section holds. -/
structure PrototypeMetadata where
  bindingRegisters : List (BytecodeBindingId × Register)
  upvalues : List BytecodeUpvalue
  closePaths : List BytecodeClosePath

/-- The metadata of a prototype. -/
def BytecodePrototype.metadata (prototype : BytecodePrototype) : PrototypeMetadata :=
  ⟨prototype.bindingRegisters, prototype.upvalues, prototype.closePaths⟩

/-- `encode_metadata`. -/
def encodeMetadata (metadata : PrototypeMetadata) (limits : VerifyLimits) : Write :=
  Writer.reject (limits.maxUpvaluesPerPrototype < metadata.upvalues.length)
      (limit 0 "RVLU upvalue 數超過限制")
    ++ (Writer.list writeBindingRegister metadata.bindingRegisters "RVLU binding metadata 過大"
    ++ (Writer.list writeUpvalue metadata.upvalues "RVLU upvalue metadata 過大"
    ++ Writer.list writeClosePath metadata.closePaths "RVLU close metadata 過大"))

/-- The reader of the metadata section. -/
def readMetadata (limits : VerifyLimits) : Read PrototypeMetadata := do
  let bindingCount ← Reader.count limits.maxConstants "RVLU binding metadata 超過限制"
  let bindingRegisters ← many readBindingRegister bindingCount
  let upvalueCount ← Reader.count limits.maxUpvaluesPerPrototype "RVLU upvalue 數超過限制"
  let upvalues ← many readUpvalue upvalueCount
  let closeCount ← Reader.count limits.maxConstants "RVLU close metadata 超過限制"
  let closePaths ← many (readClosePath limits) closeCount
  pure ⟨bindingRegisters, upvalues, closePaths⟩

/-- `decode_metadata`. -/
def decodeMetadata (bytes : List UInt8) (limits : VerifyLimits) (base : Nat) :
    Except BytecodeError PrototypeMetadata :=
  runAt (do
    let metadata ← readMetadata limits
    finished fun position => verify position "RVLU metadata section 尾端 bytes 無效"
    pure metadata) bytes base

/-! ### Prototypes -/

/-- A named vararg. -/
def writeNamedVararg (entry : BytecodeBindingId × Register) : Write :=
  writeBinding entry.1 ++ Writer.u16 entry.2

/-- `encode_prototype`. -/
def encodePrototype (prototype : BytecodePrototype) (limits : VerifyLimits) : Write :=
  Writer.u32 prototype.id ++ (Writer.u32 prototype.function
    ++ (writeOptionalProto prototype.parent ++ (writeSpan prototype.span
    ++ (Writer.u16 prototype.registerCount ++ (Writer.u16 prototype.parameterCount
    ++ (writeFlag prototype.isVariadic ++ (writeOption writeNamedVararg prototype.namedVararg
    ++ (writeFrame prototype.frame ++ (Writer.u16 prototype.globalEnvironment
    ++ (writeBinding prototype.globalEnvironmentBinding
    ++ (Writer.section (encodeConstants prototype.constants limits) "RVLU constants section 太大"
    ++ (Writer.section (encodeInstructions prototype.instructions limits)
      "RVLU instructions section 太大"
    ++ Writer.section (encodeMetadata prototype.metadata limits)
      "RVLU metadata section 太大"))))))))))))

/-- The reader of a prototype record. -/
def readPrototype (limits : VerifyLimits) : Read BytecodePrototype := do
  let id ← Reader.u32
  let function ← Reader.u32
  let parent ← readOptionalProto
  let span ← readSpan
  let registerCount ← Reader.u16
  let parameterCount ← Reader.u16
  let isVariadic ← readFlag "RVLU vararg flag 無效"
  let namedVararg ← readOption readBindingRegister "RVLU named vararg flag 無效"
  let frame ← readFrame
  let globalEnvironment ← Reader.u16
  let globalEnvironmentBinding ← readBinding
  let constantsSection ← Reader.section
  let constants ← compute (decodeConstants constantsSection.bytes limits constantsSection.start)
  let instructionsSection ← Reader.section
  let instructions ← compute
    (decodeInstructions instructionsSection.bytes limits instructionsSection.start)
  let metadataSection ← Reader.section
  let metadata ← compute (decodeMetadata metadataSection.bytes limits metadataSection.start)
  pure ⟨id, function, parent, span, registerCount, parameterCount, isVariadic, namedVararg, frame,
    globalEnvironment, globalEnvironmentBinding, metadata.bindingRegisters, constants,
    metadata.upvalues, instructions, metadata.closePaths⟩

/-- `decode_prototype`. -/
def decodePrototype (bytes : List UInt8) (limits : VerifyLimits) (base : Nat) :
    Except BytecodeError BytecodePrototype :=
  runAt (do
    let prototype ← readPrototype limits
    finished fun position => verify position "RVLU prototype record 尾端 bytes 無效"
    pure prototype) bytes base

/-- `encode_prototype_section`. -/
def encodePrototypeSection (prototypes : List BytecodePrototype) (limits : VerifyLimits) : Write :=
  Writer.list (fun prototype =>
      Writer.section (encodePrototype prototype limits) "RVLU prototype record 太大")
    prototypes "RVLU prototype 數過大"

/-- The limits with what earlier prototypes have left of instructions and constants. -/
def VerifyLimits.bounded (limits : VerifyLimits) (instructions constants : Nat) : VerifyLimits :=
  { limits with
    maxInstructions := limits.maxInstructions - instructions
    maxConstants := limits.maxConstants - constants }

/-- One record, under what the prototypes before it have left of the limits. -/
def decodeRecord (limits : VerifyLimits) (totalInstructions totalConstants : Nat)
    (bytes : List UInt8) (start : Nat) : Except BytecodeError BytecodePrototype := do
  Check.reject (limits.maxInstructions < totalInstructions)
    (limit start "RVLU module instruction 總量超過限制")
  Check.reject (limits.maxConstants < totalConstants)
    (limit start "RVLU module constant 總量超過限制")
  decodePrototype bytes (limits.bounded totalInstructions totalConstants) start

/-- The loop of `decode_module` over the records.  The two totals count the instructions and
    constants of the prototypes read so far. -/
def readPrototypes (limits : VerifyLimits) : Nat → Nat → Nat → Read (List BytecodePrototype)
  | 0, _, _ => pure []
  | count + 1, totalInstructions, totalConstants => do
    let record ← Reader.section
    let prototype ← compute
      (decodeRecord limits totalInstructions totalConstants record.bytes record.start)
    let rest ← readPrototypes limits count (totalInstructions + prototype.instructions.length)
      (totalConstants + prototype.constants.length)
    pure (prototype :: rest)

/-- The prototype section of a module. -/
def decodePrototypes (bytes : List UInt8) (limits : VerifyLimits) (base : Nat) :
    Except BytecodeError (List BytecodePrototype) :=
  runAt (do
    let prototypes ← (do
      let count ← Reader.count limits.maxPrototypes "RVLU prototype 數超過限制"
      readPrototypes limits count 0 0)
    finished fun position => verify position "RVLU prototype section 尾端 bytes 無效"
    pure prototypes) bytes base

/-! ### Modules -/

/-- The writer of a whole module. -/
def writeModule (module : BytecodeModule) (limits : VerifyLimits) : Write :=
  .ok rvluMagic ++ (Writer.u16 rvluV2 ++ (Writer.u8 (profileTag module.profile)
    ++ (Writer.u8 module.numericConfig ++ (writeSpan module.span
    ++ Writer.section (encodePrototypeSection module.prototypes limits)
      "RVLU prototype section 太大"))))

/-- `encode_verified_module_bytes`. -/
def encodeVerifiedModuleBytes (verified : VerifiedModule) (limits : VerifyLimits) :
    Except BytecodeError (List UInt8) := do
  let bytes ← (writeModule verified.module limits).toExcept
  Check.reject (limits.maxModuleBytes < bytes.length) (limit 0 "RVLU module bytes 超過限制")
  .ok bytes

/-- The bytes of a module together with the verified module. -/
structure EncodedModule where
  bytes : List UInt8
  verified : VerifiedModule
  deriving DecidableEq

/-- `encode_module`. -/
def encodeModule (alloc : Allocator) (module : BytecodeModule) (expectedProfile : LuaProfile)
    (limits : VerifyLimits) : Except BytecodeError EncodedModule := do
  let verified ← verifyModule alloc module expectedProfile limits
  let bytes ← encodeVerifiedModuleBytes verified limits
  .ok ⟨bytes, verified⟩

/-- The header of a module and the bytes of its prototype section. -/
structure ModuleHeader where
  version : BytecodeVersion
  profile : LuaProfile
  numericConfig : UInt8
  span : BytecodeSpan
  prototypeSection : Section

/-- The reader of everything but the prototype section's contents. -/
def readModuleHeader (expectedProfile : LuaProfile) : Read ModuleHeader := do
  let magic ← Reader.take 4
  reject (magic ≠ rvluMagic) (verify 0 "RVLU magic 不符")
  let version ← Reader.u16
  reject (version = rvluV1) (verify 4 "RVLU v1 語意不完整，明確拒絕")
  reject (version ≠ rvluV2) (verify 4 "RVLU format version 不支援")
  let profile ← readTag parseProfile 6
  reject (profile ≠ expectedProfile) (verify 6 "RVLU profile 不符")
  let numericConfig ← Reader.u8
  reject (numericConfig ≠ rvluNumericI64F64) (verify 7 "RVLU numeric configuration 不支援")
  let span ← readSpan
  let prototypeSection ← Reader.section
  pure ⟨version, profile, numericConfig, span, prototypeSection⟩

/-- The function table that lists the prototypes in order. -/
def functionPrototypesOf (prototypes : List BytecodePrototype) : List (UInt32 × ProtoId) :=
  prototypes.map fun prototype => (prototype.function, prototype.id)

/-- The module a header and its prototypes make up. -/
def ModuleHeader.module (header : ModuleHeader) (prototypes : List BytecodePrototype) :
    BytecodeModule :=
  ⟨header.version, header.profile, header.numericConfig, header.span,
    functionPrototypesOf prototypes, prototypes⟩

/-- `decode_module`. -/
def decodeModule (alloc : Allocator) (bytes : List UInt8) (expectedProfile : LuaProfile)
    (limits : VerifyLimits) : Except BytecodeError VerifiedModule := do
  Check.reject (limits.maxModuleBytes < bytes.length) (limit 0 "RVLU module bytes 超過限制")
  let header ← runAt (do
    let header ← readModuleHeader expectedProfile
    finished fun position => verify position "RVLU module 有未宣告尾端 bytes"
    pure header) bytes 0
  let prototypes ← decodePrototypes header.prototypeSection.bytes limits
    header.prototypeSection.start
  verifyModule alloc (header.module prototypes) expectedProfile limits

end RivetLua.Bytecode
