import RivetLua.Core.Profile

namespace RivetLua.Bytecode

open RivetLua.Core

/-!
# Bytecode — instructions, prototypes and modules

The typed intermediate representation that the compiler emits, the RVLU codec stores and the
verifier checks.  Numbers have the width of the source's own types; a `usize` is a `Nat`.

* `Instruction` — the twenty opcodes with their operands;
* `BytecodePrototype` — one function: frame, constants, upvalues, code and close paths;
* `BytecodeModule` — the prototypes of a chunk.
-/

/-- `Register`. -/
abbrev Register := UInt16

/-- `ConstId`. -/
abbrev ConstId := UInt32

/-- `UpvalueId`. -/
abbrev UpvalueId := UInt16

/-- `ProtoId`. -/
abbrev ProtoId := UInt32

/-- `InstructionOffset`. -/
abbrev InstructionOffset := UInt32

/-- `BytecodeVersion`. -/
abbrev BytecodeVersion := UInt16

/-- `RVLU_V1`. -/
def rvluV1 : BytecodeVersion := 1

/-- The only version that is encoded and verified. -/
def rvluV2 : BytecodeVersion := 2

/-- How many results a call, vararg or return has: a fixed number, or all of them. -/
inductive ResultMode where
  | fixed (count : UInt16)
  | all
  deriving DecidableEq, Repr

/-- Where the environment slot of a frame comes from. -/
inductive EnvironmentSource where
  | rootExternal
  | parentFrame (parent : ProtoId) (register : Register)
  | parentLocal (upvalue : UpvalueId)
  | parentUpvalue (upvalue : UpvalueId)
  deriving DecidableEq, Repr

/-- The static layout of a frame. -/
structure FrameLayout where
  registerLimit : UInt16
  initialTop : Register
  dynamicTop : Register
  returnBase : Register
  environment : Register
  environmentSource : EnvironmentSource
  registersStartAsNil : Bool
  deriving DecidableEq, Repr

/-- Unary operators. -/
inductive UnaryOperation where
  | negate | not | length | bitNot
  deriving DecidableEq, Repr

/-- Binary operators. -/
inductive BinaryOperation where
  | or | and | equal | notEqual | less | lessEqual | greater | greaterEqual
  | pipe | bitXor | ampersand | shiftLeft | shiftRight | concat
  | add | subtract | multiply | divide | floorDivide | modulo | power
  deriving DecidableEq, Repr

/-- The instructions of RVLU v2. -/
inductive Instruction where
  | loadConst (dest : Register) (constant : ConstId)
  | loadNil (start : Register) (count : UInt16)
  | move (dest src : Register)
  | getUpvalue (dest : Register) (upvalue : UpvalueId)
  | setUpvalue (upvalue : UpvalueId) (src : Register)
  | newTable (dest : Register)
  | getTable (dest table key : Register)
  | setTable (table key value : Register)
  | unaryOp (dest : Register) (op : UnaryOperation) (src : Register)
  | binaryOp (dest : Register) (op : BinaryOperation) (left right : Register)
  | jump (target : InstructionOffset)
  | jumpIfFalse (condition : Register) (target : InstructionOffset)
  | closure (dest : Register) (proto : ProtoId)
  /-- `argCount = 0xFFFF` takes the arguments up to the open result. -/
  | call (base : Register) (argCount : UInt16) (resultMode : ResultMode)
  | tailCall (base : Register) (argCount : UInt16) (resultMode : ResultMode)
  | vararg (base : Register) (resultMode : ResultMode)
  | ret (base : Register) (resultMode : ResultMode)
  | close (base : Register) (count : UInt16)
  | numericForPrepare (control limit step visible : Register) (exit : InstructionOffset)
  | numericForNext (control limit step visible : Register) (target exit : InstructionOffset)
  deriving DecidableEq, Repr

/-- The argument count that stands for "up to the open result". -/
def dynamicArguments : UInt16 := 0xFFFF

/-- The bits of the effect flags. -/
inductive InstructionEffect where
  | allocates | writesHeap | mayCall | mayYield | mayError | safePoint
  deriving DecidableEq, Repr

/-- The value of a flag. -/
def InstructionEffect.flag : InstructionEffect → UInt8
  | .allocates => 1
  | .writesHeap => 2
  | .mayCall => 4
  | .mayYield => 8
  | .mayError => 16
  | .safePoint => 32

/-- A set of flags in one byte. -/
def effectFlags (effects : List InstructionEffect) : UInt8 :=
  effects.foldl (fun acc effect => acc ||| effect.flag) 0

/-- `InstructionEffects::KNOWN_FLAGS`. -/
def knownFlags : UInt8 :=
  effectFlags [.allocates, .writesHeap, .mayCall, .mayYield, .mayError, .safePoint]

/-- `Instruction::canonical_effect_flags`: the flags an opcode always has. -/
def Instruction.canonicalEffectFlags : Instruction → UInt8
  | .newTable _ | .closure _ _ => effectFlags [.allocates, .mayError, .safePoint]
  | .getTable _ _ _ => effectFlags [.mayCall, .mayYield, .mayError, .safePoint]
  | .setTable _ _ _ => effectFlags [.writesHeap, .mayCall, .mayYield, .mayError, .safePoint]
  | .binaryOp _ .concat _ _ =>
    effectFlags [.allocates, .mayCall, .mayYield, .mayError, .safePoint]
  | .unaryOp _ _ _ | .binaryOp _ _ _ _ => effectFlags [.mayCall, .mayYield, .mayError, .safePoint]
  | .setUpvalue _ _ => effectFlags [.writesHeap, .safePoint]
  | .call _ _ _ | .tailCall _ _ _ | .close _ _ =>
    effectFlags [.mayCall, .mayYield, .mayError, .safePoint]
  | .numericForPrepare _ _ _ _ _ | .numericForNext _ _ _ _ _ _ =>
    effectFlags [.mayError, .safePoint]
  | _ => 0

/-- A range of source bytes. -/
structure BytecodeSpan where
  startByte : UInt64
  endByte : UInt64
  deriving DecidableEq, Repr

/-- A binding of the resolver: the function that declares it and its ordinal there. -/
structure BytecodeBindingId where
  function : UInt32
  ordinal : UInt32
  deriving DecidableEq, Repr

instance : LawfulBEq (BytecodeBindingId × Register) := inferInstance

/-- How a scope is left. -/
inductive BytecodeExitKind where
  | normal | return | break | goto | error
  deriving DecidableEq, Repr

/-- What an upvalue captures. -/
inductive BytecodeUpvalueSource where
  | parentLocal (binding : BytecodeBindingId)
  | parentUpvalue (upvalue : UpvalueId)
  deriving DecidableEq, Repr

/-- An upvalue of a prototype. -/
structure BytecodeUpvalue where
  id : UpvalueId
  source : BytecodeUpvalueSource
  deriving DecidableEq, Repr

/-- The bindings to be closed on one way out of a scope, innermost first. -/
structure BytecodeClosePath where
  kind : BytecodeExitKind
  span : BytecodeSpan
  fromScope : UInt32
  targetScope : Option UInt32
  bindings : List BytecodeBindingId
  registers : List Register
  deriving DecidableEq, Repr

/-- A constant; a float is kept as its bits. -/
inductive BytecodeConstant where
  | integer (value : Int64)
  | floatBits (bits : UInt64)
  | name (bytes : List UInt8)
  | string (bytes : List UInt8)
  | boolean (value : Bool)
  deriving DecidableEq

/-- An instruction with its source span; `closePath` links a close instruction to its path. -/
structure BytecodeInstruction where
  instruction : Instruction
  span : BytecodeSpan
  closePath : Option BytecodeClosePath
  deriving DecidableEq, Repr

/-- A function prototype. -/
structure BytecodePrototype where
  id : ProtoId
  function : UInt32
  parent : Option ProtoId
  span : BytecodeSpan
  registerCount : UInt16
  parameterCount : UInt16
  isVariadic : Bool
  namedVararg : Option (BytecodeBindingId × Register)
  frame : FrameLayout
  globalEnvironment : Register
  globalEnvironmentBinding : BytecodeBindingId
  bindingRegisters : List (BytecodeBindingId × Register)
  constants : List BytecodeConstant
  upvalues : List BytecodeUpvalue
  instructions : List BytecodeInstruction
  closePaths : List BytecodeClosePath
  deriving DecidableEq

/-- A module. -/
structure BytecodeModule where
  formatVersion : BytecodeVersion
  profile : LuaProfile
  numericConfig : UInt8
  span : BytecodeSpan
  functionPrototypes : List (UInt32 × ProtoId)
  prototypes : List BytecodePrototype
  deriving DecidableEq

/-- `VerifyLimits`. -/
structure VerifyLimits where
  maxModuleBytes : Nat
  maxArtifactBytes : Nat
  maxPrototypes : Nat
  maxInstructions : Nat
  maxConstants : Nat
  maxRegisters : UInt16
  maxUpvaluesPerPrototype : Nat
  deriving DecidableEq, Repr

/-- `VerifyLimits::default`. -/
def VerifyLimits.default : VerifyLimits where
  maxModuleBytes := 16 * 1024 * 1024
  maxArtifactBytes := 16 * 1024 * 1024
  maxPrototypes := 4096
  maxInstructions := 100000
  maxConstants := 100000
  maxRegisters := 4096
  maxUpvaluesPerPrototype := 255

/-- `BytecodeErrorCode`. -/
inductive BytecodeErrorCode where
  | compileLimit | verify | allocationFailed
  deriving DecidableEq, Repr

/-- `BytecodeError`. -/
structure BytecodeError where
  code : BytecodeErrorCode
  offset : Nat
  message : String
  deriving DecidableEq, Repr

/-- The function `verify`: a malformed module. -/
def verify (offset : Nat) (message : String) : BytecodeError := ⟨.verify, offset, message⟩

/-- The function `limit`: a module beyond the limits. -/
def limit (offset : Nat) (message : String) : BytecodeError := ⟨.compileLimit, offset, message⟩

end RivetLua.Bytecode
