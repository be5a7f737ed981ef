import RivetLua.Lib.Emission
import RivetLua.Bytecode.Codec

namespace RivetLua.Bytecode

open RivetLua.Core Wire

/-!
# Bytecode — the RVLU encoder on a bounded writer

The transport encodes a verified module under a bound that it announced: every `Writer` counts its
bytes and its capacity against the bound.  The encoder is the one of the codec, piece by piece.

* `emitInstruction`, `emitPrototype`, … — the pieces that the encoder writes, with their output:
  what the codec writes;
* `encodeVerifiedModuleBytesInner` — the encoder with an optional bound;
* `encodeVerifiedModuleBytesInner_none` — without a bound it is the encoder of the codec.
-/

/-- Programs of a `Writer`. -/
abbrev Emit := Emission BytecodeError

namespace Emit

/-- A byte. -/
def u8 (value : UInt8) : Emit := .write [value] .done

/-- A 16-bit number. -/
def u16 (value : UInt16) : Emit := .write (littleEndian 2 value.toNat) .done

/-- A 32-bit number. -/
def u32 (value : UInt32) : Emit := .write (littleEndian 4 value.toNat) .done

/-- A 64-bit number. -/
def u64 (value : UInt64) : Emit := .write (littleEndian 8 value.toNat) .done

/-- A signed 64-bit number. -/
def i64 (value : Int64) : Emit := u64 value.toUInt64

/-- `writer.u32(checked_u32(value, 0, message)?)`. -/
def length (value : Nat) (message : String) : Emit :=
  if value < 2 ^ 32 then .write (littleEndian 4 value) .done else .stop (limit 0 message)

/-- `if c { return Err(e) }` inside a writer. -/
def reject (c : Prop) [Decidable c] (e : BytecodeError) : Emit := if c then .stop e else .done

/-- A byte string behind its length. -/
def blob (value : List UInt8) : Emit :=
  length value.length "RVLU blob 過大" ++ .write value .done

/-- A list behind its length. -/
def list {α : Type} (emit : α → Emit) (items : List α) (message : String) : Emit :=
  length items.length message ++ .each emit items

/-- What a writer of its own produced, behind its length. -/
def «section» (body : Emit) (message : String) : Emit := .nested body (limit 0 message) .done

/-- An option: 0, or 1 and the value. -/
def option {α : Type} (emit : α → Emit) : Option α → Emit
  | some value => u8 1 ++ emit value
  | none => u8 0

/-! What these write. -/

@[simp] theorem output_u8 (value : UInt8) : (u8 value).output = Writer.u8 value := rfl

@[simp] theorem output_u16 (value : UInt16) : (u16 value).output = Writer.u16 value := by
  simp [u16, Emission.output, Writer.u16]

@[simp] theorem output_u32 (value : UInt32) : (u32 value).output = Writer.u32 value := by
  simp [u32, Emission.output, Writer.u32]

@[simp] theorem output_u64 (value : UInt64) : (u64 value).output = Writer.u64 value := by
  simp [u64, Emission.output, Writer.u64]

@[simp] theorem output_i64 (value : Int64) : (i64 value).output = Writer.i64 value :=
  output_u64 _

@[simp] theorem output_length (value : Nat) (message : String) :
    (length value message).output = Writer.length value message := by
  unfold length Writer.length
  split <;> simp [Emission.output]

@[simp] theorem output_reject (c : Prop) [Decidable c] (e : BytecodeError) :
    (reject c e).output = Writer.reject c e := by
  unfold reject Writer.reject
  split <;> rfl

@[simp] theorem output_blob (value : List UInt8) : (blob value).output = Writer.blob value := by
  simp [blob, Writer.blob, Emission.output]

theorem output_list {α : Type} {emit : α → Emit} {write : α → Write}
    (h : ∀ a, (emit a).output = write a) (items : List α) (message : String) :
    (list emit items message).output = Writer.list write items message := by
  rw [list, Emission.output_append, output_length, Emission.output_each h, Writer.list]

theorem output_section (body : Emit) (message : String) :
    (Emit.section body message).output = Writer.section body.output message := by
  show Emission.lengthened body.output (limit 0 message) ++ .ok [] = _
  rw [Emission.Output.append_nil]
  cases body.output <;> rfl

theorem output_option {α : Type} {emit : α → Emit} {write : α → Write}
    (h : ∀ a, (emit a).output = write a) (value : Option α) :
    (option emit value).output = writeOption write value := by
  cases value with
  | none => rfl
  | some a => rw [option, Emission.output_append, h, output_u8, writeOption]

end Emit

/-! ### Small records -/

/-- `write_span`. -/
def emitSpan (span : BytecodeSpan) : Emit := Emit.u64 span.startByte ++ Emit.u64 span.endByte

/-- `write_binding`. -/
def emitBinding (binding : BytecodeBindingId) : Emit :=
  Emit.u32 binding.function ++ Emit.u32 binding.ordinal

/-- `u8::from(bool)`. -/
def emitFlag (value : Bool) : Emit := Emit.u8 (if value then 1 else 0)

/-- `write_result_mode`. -/
def emitResultMode : ResultMode → Emit
  | .fixed count => Emit.u8 0 ++ Emit.u16 count
  | .all => Emit.u8 1

@[simp] theorem output_emitSpan (span : BytecodeSpan) : (emitSpan span).output = writeSpan span := by
  simp [emitSpan, writeSpan]

@[simp] theorem output_emitBinding (binding : BytecodeBindingId) :
    (emitBinding binding).output = writeBinding binding := by
  simp [emitBinding, writeBinding]

@[simp] theorem output_emitFlag (value : Bool) : (emitFlag value).output = writeFlag value := rfl

@[simp] theorem output_emitResultMode (mode : ResultMode) :
    (emitResultMode mode).output = writeResultMode mode := by
  cases mode <;> simp [emitResultMode, writeResultMode]

/-! ### Instructions -/

/-- The operands of an instruction. -/
def emitOperands : Instruction → Emit
  | .loadConst dest constant => Emit.u16 dest ++ Emit.u32 constant
  | .loadNil start count => Emit.u16 start ++ Emit.u16 count
  | .move dest src => Emit.u16 dest ++ Emit.u16 src
  | .getUpvalue dest upvalue => Emit.u16 dest ++ Emit.u16 upvalue
  | .setUpvalue upvalue src => Emit.u16 upvalue ++ Emit.u16 src
  | .newTable dest => Emit.u16 dest
  | .getTable dest table key => Emit.u16 dest ++ (Emit.u16 table ++ Emit.u16 key)
  | .setTable table key value => Emit.u16 table ++ (Emit.u16 key ++ Emit.u16 value)
  | .unaryOp dest op src => Emit.u16 dest ++ (Emit.u8 (unaryTag op) ++ Emit.u16 src)
  | .binaryOp dest op left right =>
    Emit.u16 dest ++ (Emit.u8 (binaryTag op) ++ (Emit.u16 left ++ Emit.u16 right))
  | .jump target => Emit.u32 target
  | .jumpIfFalse condition target => Emit.u16 condition ++ Emit.u32 target
  | .closure dest proto => Emit.u16 dest ++ Emit.u32 proto
  | .call base argCount resultMode | .tailCall base argCount resultMode =>
    Emit.u16 base ++ (Emit.u16 argCount ++ emitResultMode resultMode)
  | .vararg base resultMode | .ret base resultMode => Emit.u16 base ++ emitResultMode resultMode
  | .close base count => Emit.u16 base ++ Emit.u16 count
  | .numericForPrepare control limit step visible exit =>
    Emit.u16 control ++ (Emit.u16 limit ++ (Emit.u16 step ++ (Emit.u16 visible
      ++ Emit.u32 exit)))
  | .numericForNext control limit step visible target exit =>
    Emit.u16 control ++ (Emit.u16 limit ++ (Emit.u16 step ++ (Emit.u16 visible
      ++ (Emit.u32 target ++ Emit.u32 exit))))

/-- `write_instruction`. -/
def emitInstruction (instruction : Instruction) : Emit :=
  Emit.u8 (opcodeTag instruction) ++ emitOperands instruction

@[simp] theorem output_emitInstruction (instruction : Instruction) :
    (emitInstruction instruction).output = writeInstruction instruction := by
  have hoperands : (emitOperands instruction).output = writeOperands instruction := by
    cases instruction <;> simp [emitOperands, writeOperands]
  rw [emitInstruction, Emission.output_append, hoperands, Emit.output_u8, writeInstruction]

/-! ### Frames, close paths and constants -/

/-- The environment source of a frame. -/
def emitEnvironmentSource : EnvironmentSource → Emit
  | .rootExternal => Emit.u8 0
  | .parentFrame parent register => Emit.u8 1 ++ (Emit.u32 parent ++ Emit.u16 register)
  | .parentLocal upvalue => Emit.u8 2 ++ Emit.u16 upvalue
  | .parentUpvalue upvalue => Emit.u8 3 ++ Emit.u16 upvalue

/-- `write_frame`. -/
def emitFrame (frame : FrameLayout) : Emit :=
  Emit.u16 frame.registerLimit ++ (Emit.u16 frame.initialTop ++ (Emit.u16 frame.dynamicTop
    ++ (Emit.u16 frame.returnBase ++ (Emit.u16 frame.environment
    ++ (emitEnvironmentSource frame.environmentSource
    ++ emitFlag frame.registersStartAsNil)))))

/-- `write_close_path`. -/
def emitClosePath (close : BytecodeClosePath) : Emit :=
  Emit.u8 (exitTag close.kind) ++ (emitSpan close.span ++ (Emit.u32 close.fromScope
    ++ (Emit.option Emit.u32 close.targetScope
    ++ (Emit.list emitBinding close.bindings "RVLU close bindings 過大"
    ++ Emit.list Emit.u16 close.registers "RVLU close registers 過大"))))

/-- One constant. -/
def emitConstant : BytecodeConstant → Emit
  | .integer value => Emit.u8 0 ++ Emit.i64 value
  | .floatBits bits => Emit.u8 1 ++ Emit.u64 bits
  | .name bytes => Emit.u8 2 ++ Emit.blob bytes
  | .string bytes => Emit.u8 3 ++ Emit.blob bytes
  | .boolean value => Emit.u8 4 ++ emitFlag value

@[simp] theorem output_emitFrame (frame : FrameLayout) :
    (emitFrame frame).output = writeFrame frame := by
  have hsource : (emitEnvironmentSource frame.environmentSource).output
      = writeEnvironmentSource frame.environmentSource := by
    cases frame.environmentSource <;> simp [emitEnvironmentSource, writeEnvironmentSource]
  simp [emitFrame, writeFrame, hsource]

@[simp] theorem output_emitClosePath (close : BytecodeClosePath) :
    (emitClosePath close).output = writeClosePath close := by
  simp [emitClosePath, writeClosePath, Emit.output_option Emit.output_u32,
    Emit.output_list output_emitBinding, Emit.output_list Emit.output_u16]

@[simp] theorem output_emitConstant (constant : BytecodeConstant) :
    (emitConstant constant).output = writeConstant constant := by
  cases constant <;> simp [emitConstant, writeConstant]

/-! ### The sections of a prototype -/

/-- `encode_constants`. -/
def emitConstants (constants : List BytecodeConstant) (limits : VerifyLimits) : Emit :=
  Emit.reject (limits.maxConstants < constants.length) (limit 0 "RVLU constant 數超過限制")
    ++ Emit.list emitConstant constants "RVLU constant 數過大"

/-- One instruction with its effect flags, span and close path. -/
def emitBytecodeInstruction (entry : BytecodeInstruction) : Emit :=
  emitInstruction entry.instruction ++ (Emit.u8 entry.instruction.canonicalEffectFlags
    ++ (emitSpan entry.span ++ Emit.option emitClosePath entry.closePath))

/-- `encode_instructions`. -/
def emitInstructions (instructions : List BytecodeInstruction) (limits : VerifyLimits) : Emit :=
  Emit.reject (limits.maxInstructions < instructions.length)
      (limit 0 "RVLU instruction 數超過限制")
    ++ Emit.list emitBytecodeInstruction instructions "RVLU instruction 數過大"

/-- A binding with its register. -/
def emitBindingRegister (entry : BytecodeBindingId × Register) : Emit :=
  emitBinding entry.1 ++ Emit.u16 entry.2

/-- One upvalue. -/
def emitUpvalue (upvalue : BytecodeUpvalue) : Emit :=
  Emit.u16 upvalue.id ++
    match upvalue.source with
    | .parentLocal binding => Emit.u8 0 ++ emitBinding binding
    | .parentUpvalue parent => Emit.u8 1 ++ Emit.u16 parent

/-- `encode_metadata`. -/
def emitMetadata (metadata : PrototypeMetadata) (limits : VerifyLimits) : Emit :=
  Emit.reject (limits.maxUpvaluesPerPrototype < metadata.upvalues.length)
      (limit 0 "RVLU upvalue 數超過限制")
    ++ (Emit.list emitBindingRegister metadata.bindingRegisters "RVLU binding metadata 過大"
    ++ (Emit.list emitUpvalue metadata.upvalues "RVLU upvalue metadata 過大"
    ++ Emit.list emitClosePath metadata.closePaths "RVLU close metadata 過大"))

/-- `encode_prototype`. -/
def emitPrototype (prototype : BytecodePrototype) (limits : VerifyLimits) : Emit :=
  Emit.u32 prototype.id ++ (Emit.u32 prototype.function
    ++ (Emit.option Emit.u32 prototype.parent ++ (emitSpan prototype.span
    ++ (Emit.u16 prototype.registerCount ++ (Emit.u16 prototype.parameterCount
    ++ (emitFlag prototype.isVariadic ++ (Emit.option emitBindingRegister prototype.namedVararg
    ++ (emitFrame prototype.frame ++ (Emit.u16 prototype.globalEnvironment
    ++ (emitBinding prototype.globalEnvironmentBinding
    ++ (Emit.section (emitConstants prototype.constants limits) "RVLU constants section 太大"
    ++ (Emit.section (emitInstructions prototype.instructions limits)
      "RVLU instructions section 太大"
    ++ Emit.section (emitMetadata prototype.metadata limits)
      "RVLU metadata section 太大"))))))))))))

/-- `encode_prototype_section`. -/
def emitPrototypeSection (prototypes : List BytecodePrototype) (limits : VerifyLimits) : Emit :=
  Emit.list (fun prototype =>
      Emit.section (emitPrototype prototype limits) "RVLU prototype record 太大")
    prototypes "RVLU prototype 數過大"

/-- The pieces of a whole module. -/
def emitModule (module : BytecodeModule) (limits : VerifyLimits) : Emit :=
  .write rvluMagic .done ++ (Emit.u16 rvluV2 ++ (Emit.u8 (profileTag module.profile)
    ++ (Emit.u8 module.numericConfig ++ (emitSpan module.span
    ++ Emit.section (emitPrototypeSection module.prototypes limits)
      "RVLU prototype section 太大"))))

@[simp] theorem output_emitBytecodeInstruction (entry : BytecodeInstruction) :
    (emitBytecodeInstruction entry).output = writeBytecodeInstruction entry := by
  simp [emitBytecodeInstruction, writeBytecodeInstruction, Emit.output_option output_emitClosePath]

@[simp] theorem output_emitBindingRegister (entry : BytecodeBindingId × Register) :
    (emitBindingRegister entry).output = writeBindingRegister entry := by
  simp [emitBindingRegister, writeBindingRegister]

@[simp] theorem output_emitUpvalue (upvalue : BytecodeUpvalue) :
    (emitUpvalue upvalue).output = writeUpvalue upvalue := by
  unfold emitUpvalue writeUpvalue
  cases upvalue.source <;> simp

theorem output_emitPrototype (prototype : BytecodePrototype) (limits : VerifyLimits) :
    (emitPrototype prototype limits).output = encodePrototype prototype limits := by
  have hconstants : (emitConstants prototype.constants limits).output
      = encodeConstants prototype.constants limits := by
    simp [emitConstants, encodeConstants, Emit.output_list output_emitConstant]
  have hinstructions : (emitInstructions prototype.instructions limits).output
      = encodeInstructions prototype.instructions limits := by
    simp [emitInstructions, encodeInstructions, Emit.output_list output_emitBytecodeInstruction]
  have hmetadata : (emitMetadata prototype.metadata limits).output
      = encodeMetadata prototype.metadata limits := by
    simp [emitMetadata, encodeMetadata, Emit.output_list output_emitBindingRegister,
      Emit.output_list output_emitUpvalue, Emit.output_list output_emitClosePath]
  have hnamed : (Emit.option emitBindingRegister prototype.namedVararg).output
      = writeOption writeNamedVararg prototype.namedVararg :=
    Emit.output_option output_emitBindingRegister _
  simp [emitPrototype, encodePrototype, Emit.output_section, hconstants, hinstructions, hmetadata,
    hnamed, writeOptionalProto, Emit.output_option Emit.output_u32]

/-- **The pieces of a module are what the codec writes.** -/
theorem output_emitModule (module : BytecodeModule) (limits : VerifyLimits) :
    (emitModule module limits).output = writeModule module limits := by
  have hsection : (emitPrototypeSection module.prototypes limits).output
      = encodePrototypeSection module.prototypes limits :=
    Emit.output_list (fun prototype => by
      rw [Emit.output_section, output_emitPrototype]) _ _
  simp [emitModule, writeModule, Emission.output, Emit.output_section, hsection]

/-! ### The encoder -/

/-- The failures of a `Writer`. -/
def writerFaults : Faults BytecodeError where
  overflow := limit 0 "RVLU 輸出長度溢位"
  exceeded := limit 0 "RVLU 輸出超出預准入"
  refused := ⟨.allocationFailed, 0, "RVLU 輸出配置失敗"⟩
  capacity := limit 0 "RVLU 實際容量超出預准入"

/-- `usize::MAX` of a target with 64 bits. -/
def usizeMax : Nat := 2 ^ 64 - 1

/-- `Writer::finish`. -/
def finishWriter (writer : Buffer BytecodeError) :
    Except BytecodeError (Buffer BytecodeError) :=
  match writer.failure with
  | some e => .error e
  | none => .ok writer

/-- `encode_verified_module_bytes_inner`: the bytes with their capacity. -/
def encodeVerifiedModuleBytesInner (memory : Memory) (verified : VerifiedModule)
    (limits : VerifyLimits) (allocationBound : Option Nat) :
    Except BytecodeError (Buffer BytecodeError) := do
  let writer ← (emitModule verified.module limits).run writerFaults usizeMax memory
    (.empty allocationBound 0)
  Check.reject (limits.maxModuleBytes < writer.bytes.length) (limit 0 "RVLU module bytes 超過限制")
  finishWriter writer

/-- `encode_verified_module_bytes_bounded`. -/
def encodeVerifiedModuleBytesBounded (memory : Memory) (verified : VerifiedModule)
    (limits : VerifyLimits) (allocationBound : Nat) :
    Except BytecodeError (Buffer BytecodeError) :=
  encodeVerifiedModuleBytesInner memory verified limits (some allocationBound)

end RivetLua.Bytecode
