import RivetLua.Lib.Check
import RivetLua.Bytecode.Module

namespace RivetLua.Bytecode

open RivetLua.Core Check

/-!
# Bytecode — the verifier's checks of metadata and instruction shapes

The checks that look at one declaration or one instruction at a time:

* `validateMetadata` — bindings, upvalues, close paths and their instruction sequences;
* `validateInstructionShape` — operand ranges, jump targets and close links;
* `validateCloseDeclarationMarkers` — the declarations of to-be-closed bindings.

Every check has the error text of the source; the order of the checks is the order of the
errors.
-/

/-! ### Operand ranges -/

/-- `register_in_frame`: `base + count` is a register of the frame. -/
def registerInFrame (prototype : BytecodePrototype) (base : Register) (count : UInt16)
    (message : String) : Except BytecodeError Unit :=
  reject (prototype.registerCount.toNat ≤ base.toNat + count.toNat) (verify 0 message)

/-- `validate_result_range`. -/
def validateResultRange (prototype : BytecodePrototype) (base : Register) :
    ResultMode → Except BytecodeError Unit
  | .fixed count =>
    if count = 0 then registerInFrame prototype base 0 "RVLU result base 超出 frame"
    else registerInFrame prototype base (count - 1) "RVLU result range 超出 frame"
  | .all => registerInFrame prototype base 0 "RVLU open result base 超出 frame"

/-- `require_upvalue`. -/
def requireUpvalue (prototype : BytecodePrototype) (upvalue : UpvalueId) :
    Except BytecodeError Unit :=
  reject (¬ ∃ candidate ∈ prototype.upvalues, candidate.id = upvalue)
    (verify 0 "RVLU upvalue index 無效")

/-- `require_jump_target`. -/
def requireJumpTarget (prototype : BytecodePrototype) (index : Nat) (target : InstructionOffset) :
    Except BytecodeError Unit :=
  reject (prototype.instructions.length ≤ target.toNat ∨ target.toNat = index)
    (verify 0 "RVLU jump target 無效或 self-loop")

/-! ### Close paths -/

/-- The register of a binding: the first entry of the table. -/
def BytecodePrototype.bindingRegister (prototype : BytecodePrototype)
    (binding : BytecodeBindingId) : Option Register :=
  (prototype.bindingRegisters.find? fun entry => decide (entry.1 = binding)).map Prod.snd

/-- `validate_close_path`. -/
def validateClosePath (prototype : BytecodePrototype) (path : BytecodeClosePath) :
    Except BytecodeError Unit := do
  reject (path.span.endByte < path.span.startByte ∨ prototype.span.endByte < path.span.endByte
      ∨ path.bindings.length ≠ path.registers.length)
    (verify 0 "RVLU ClosePath metadata 無效")
  each (fun entry => reject (prototype.bindingRegister entry.1 ≠ some entry.2)
      (verify 0 "RVLU ClosePath binding/register 不符"))
    (path.bindings.zip path.registers)

/-- A close instruction with a path: what starts or continues a close sequence. -/
def BytecodeInstruction.closeLink (entry : BytecodeInstruction) :
    Option (Register × UInt16 × BytecodeClosePath) :=
  match entry.instruction, entry.closePath with
  | .close base count, some path => some (base, count, path)
  | _, _ => none

/-- `TailCall` of all results. -/
def Instruction.isOpenTailCall : Instruction → Bool
  | .tailCall _ _ .all => true
  | _ => false

/-- One close sequence: the instructions from here on close the registers of the path in
    order, and a return path is not followed by an open tail call. -/
def validateCloseSequence (path : BytecodeClosePath) (rest : List BytecodeInstruction) :
    Except BytecodeError Unit := do
  reject (path.registers = []) (verify 0 "RVLU ClosePath 不可對應空 Close 序列")
  each (fun entry => do
      let actual ← some? rest[entry.2]? (verify 0 "RVLU ClosePath Close 序列缺漏")
      reject (actual.closeLink ≠ some (entry.1, 1, path))
        (verify 0 "RVLU ClosePath Close 順序或連續性不符"))
    path.registers.zipIdx
  reject (path.kind = .return
      ∧ (rest[path.registers.length]?.map fun entry => entry.instruction.isOpenTailCall)
        = some true)
    (verify 0 "RVLU 有 pending ClosePath 的 return 不可使用 TailCall(All)")

/-- `validate_close_sequences` from an instruction on; `skip` instructions belong to a
    sequence that has been checked already. -/
def validateCloseSequencesFrom : Nat → List BytecodeInstruction → Except BytecodeError Unit
  | _, [] => .ok ()
  | skip + 1, _ :: rest => validateCloseSequencesFrom skip rest
  | 0, entry :: rest =>
    match entry.closeLink with
    | none => validateCloseSequencesFrom 0 rest
    | some (_, _, path) => do
      validateCloseSequence path (entry :: rest)
      validateCloseSequencesFrom (path.registers.length - 1) rest

/-- `validate_close_sequences`. -/
def validateCloseSequences (prototype : BytecodePrototype) : Except BytecodeError Unit :=
  validateCloseSequencesFrom 0 prototype.instructions

/-- A move with a close path: the declaration of a to-be-closed binding. -/
def BytecodeInstruction.closeDeclaration (entry : BytecodeInstruction) :
    Option (Register × BytecodeClosePath) :=
  match entry.instruction, entry.closePath with
  | .move dest _, some path => some (dest, path)
  | _, _ => none

/-- The declarations of to-be-closed bindings; `declared` are those met so far. -/
def collectCloseDeclarations (prototype : BytecodePrototype) :
    List BytecodeBindingId → List BytecodeInstruction →
      Except BytecodeError (List BytecodeBindingId)
  | declared, [] => .ok declared
  | declared, entry :: rest =>
    match entry.closeDeclaration with
    | none => collectCloseDeclarations prototype declared rest
    | some (dest, path) =>
      match path.bindings with
      -- unreachable: the shape check of a marker asks for exactly one binding
      | [] => collectCloseDeclarations prototype declared rest
      | binding :: _ => do
        reject (binding ∈ declared) (verify 0 "RVLU close binding 宣告 marker 重複")
        reject (¬ ∃ exit ∈ prototype.closePaths, (binding, dest) ∈ exit.bindings.zip exit.registers)
          (verify 0 "RVLU close binding 宣告 marker 無對應出口")
        collectCloseDeclarations prototype (declared ++ [binding]) rest

/-- `validate_close_declaration_markers`. -/
def validateCloseDeclarationMarkers (prototype : BytecodePrototype) :
    Except BytecodeError Unit := do
  let declared ← collectCloseDeclarations prototype [] prototype.instructions
  each (fun path => each (fun binding => reject (binding ∉ declared)
      (verify 0 "RVLU close binding 缺少宣告 marker")) path.bindings)
    prototype.closePaths

/-! ### Metadata -/

/-- The binding table: no binding twice, every register in the frame. -/
def validateBindingRegisters (registerCount : UInt16) :
    List BytecodeBindingId → List (BytecodeBindingId × Register) → Except BytecodeError Unit
  | _, [] => .ok ()
  | seen, (binding, register) :: rest => do
    reject (binding ∈ seen ∨ registerCount ≤ register)
      (verify 0 "RVLU binding/register metadata 無效")
    validateBindingRegisters registerCount (seen ++ [binding]) rest

/-- The upvalue table: no identifier twice, every identifier below the table's length. -/
def validateUpvalues (length : Nat) :
    List UpvalueId → List BytecodeUpvalue → Except BytecodeError Unit
  | _, [] => .ok ()
  | seen, upvalue :: rest => do
    reject (length ≤ upvalue.id.toNat ∨ upvalue.id ∈ seen) (verify 0 "RVLU upvalue metadata 無效")
    validateUpvalues length (seen ++ [upvalue.id]) rest

/-- `validate_metadata`. -/
def validateMetadata (prototype : BytecodePrototype) : Except BytecodeError Unit := do
  validateBindingRegisters prototype.registerCount [] prototype.bindingRegisters
  reject (prototype.frame.environmentSource = .rootExternal
      ∧ prototype.globalEnvironmentBinding ∉ prototype.bindingRegisters.map Prod.fst)
    (verify 0 "RVLU root environment binding 缺少 register")
  validateUpvalues prototype.upvalues.length [] prototype.upvalues
  each (validateClosePath prototype) prototype.closePaths
  validateCloseSequences prototype

/-! ### Instruction shapes -/

/-- `validate_numeric_for_registers`. -/
def validateNumericForRegisters (prototype : BytecodePrototype)
    (control limit step visible : Register) : Except BytecodeError Unit := do
  each (fun register => registerInFrame prototype register 0 "RVLU register 超出 frame")
    [control, limit, step, visible]
  reject (control = limit ∨ control = step ∨ control = visible ∨ limit = step
      ∨ limit = visible ∨ step = visible)
    (verify 0 "RVLU NumericFor 控制/limit/step/可見 variable register 必須分離")

/-- Some direct child captures a binding that lives in the register. -/
def BytecodePrototype.captured (prototype : BytecodePrototype) (module : BytecodeModule)
    (base : Register) : Prop :=
  ∃ entry ∈ prototype.bindingRegisters, entry.2 = base
    ∧ ∃ child ∈ module.prototypes, child.parent = some prototype.id
      ∧ ∃ upvalue ∈ child.upvalues, upvalue.source = .parentLocal entry.1

instance (prototype : BytecodePrototype) (module : BytecodeModule) (base : Register) :
    Decidable (prototype.captured module base) :=
  inferInstanceAs (Decidable (∃ entry ∈ prototype.bindingRegisters, entry.2 = base
    ∧ ∃ child ∈ module.prototypes, child.parent = some prototype.id
      ∧ ∃ upvalue ∈ child.upvalues, upvalue.source = .parentLocal entry.1))

/-- The operands of an instruction: the first half of `validate_instruction_shape`. -/
def validateOperands (prototype : BytecodePrototype) (module : BytecodeModule) (index : Nat) :
    Instruction → Except BytecodeError Unit
  | .loadConst dest constant => do
    register dest
    reject (prototype.constants.length ≤ constant.toNat) (verify 0 "RVLU constant index 無效")
  | .loadNil start count => do
    reject (count = 0) (verify 0 "RVLU LoadNil count 不可為零")
    range start (count - 1)
  | .move dest src => do register dest; register src
  | .getUpvalue dest upvalue => do register dest; requireUpvalue prototype upvalue
  | .setUpvalue upvalue src => do requireUpvalue prototype upvalue; register src
  | .newTable dest => register dest
  | .getTable dest table key => do register dest; register table; register key
  | .setTable table key value => do register table; register key; register value
  | .unaryOp dest _ src => do register dest; register src
  | .binaryOp dest op left right => do
    reject (op = .and ∨ op = .or) (verify 0 "RVLU v2 不可用 BinaryOp 表示 and/or")
    register dest
    register left
    register right
  | .jump target => requireJumpTarget prototype index target
  | .jumpIfFalse condition target => do
    register condition
    requireJumpTarget prototype index target
  | .closure dest proto => do
    register dest
    reject (¬ ∃ candidate ∈ module.prototypes,
        candidate.id = proto ∧ candidate.parent = some prototype.id)
      (verify 0 "RVLU Closure child prototype 無效")
  | .call base argCount resultMode | .tailCall base argCount resultMode => do
    arguments base argCount
    validateResultRange prototype base resultMode
  | .vararg base resultMode => do
    reject (prototype.isVariadic = false) (verify 0 "RVLU 非 variadic prototype 不可使用 Vararg")
    register base
    validateResultRange prototype base resultMode
  | .ret base resultMode => do
    register base
    validateResultRange prototype base resultMode
  | .close base count =>
    if count = 0 then do
      register base
      reject (¬ prototype.captured module base)
        (verify 0 "RVLU scope Close 未對應直接 child capture")
    else range base (count - 1)
  | .numericForPrepare control limit step visible exit => do
    validateNumericForRegisters prototype control limit step visible
    requireJumpTarget prototype index exit
    reject (exit.toNat ≤ index) (verify 0 "RVLU NumericForPrepare exit 必須為前向 CFG edge")
  | .numericForNext control limit step visible target exit => do
    validateNumericForRegisters prototype control limit step visible
    backEdge target
    requireJumpTarget prototype index exit
    reject (index < target.toNat ∨ exit.toNat ≤ index)
      (verify 0 "RVLU NumericForNext 必須有後向或自身回邊與前向 exit CFG edge")
where
  register (r : Register) : Except BytecodeError Unit :=
    registerInFrame prototype r 0 "RVLU register 超出 frame"
  range (base : Register) (count : UInt16) : Except BytecodeError Unit :=
    registerInFrame prototype base count "RVLU register range 超出 frame"
  /-- The function is in `base`, the last argument in `base + argCount`. -/
  arguments (base : Register) (argCount : UInt16) : Except BytecodeError Unit :=
    if argCount = dynamicArguments then register base else range base argCount
  /-- An empty loop body may jump back to the instruction itself. -/
  backEdge (target : InstructionOffset) : Except BytecodeError Unit :=
    if target.toNat = index then .ok () else requireJumpTarget prototype index target

/-- The close link of an instruction: the second half of `validate_instruction_shape`. -/
def validateCloseLink (prototype : BytecodePrototype) (entry : BytecodeInstruction) :
    Except BytecodeError Unit :=
  match entry.instruction, entry.closePath with
  | .move dest _, some path => do
    validateClosePath prototype path
    reject (path.kind ≠ .normal ∨ path.targetScope ≠ some path.fromScope
        ∨ path.bindings.length ≠ 1 ∨ path.registers ≠ [dest] ∨ path.span ≠ entry.span)
      (verify 0 "RVLU close binding 宣告 marker 無效")
  | .close base count, closePath =>
    match closePath with
    | none =>
      reject (count ≠ 0) (verify 0 "RVLU Close 必須連結單一 ClosePath")
    | some path =>
      if count = 1 then do
        validateClosePath prototype path
        reject ((path.targetScope = some path.fromScope
              ∧ (path.kind ≠ .goto ∨ path.span ≠ entry.span))
            ∨ path ∉ prototype.closePaths ∨ base ∉ path.registers)
          (verify 0 "RVLU Close 缺少對應 ClosePath")
      else .error (verify 0 "RVLU Close 必須連結單一 ClosePath")
  | _, some _ => .error (verify 0 "非 Close instruction 不可攜帶 ClosePath")
  | _, none => .ok ()

/-- `validate_instruction_shape`. -/
def validateInstructionShape (prototype : BytecodePrototype) (module : BytecodeModule)
    (index : Nat) (entry : BytecodeInstruction) : Except BytecodeError Unit := do
  validateOperands prototype module index entry.instruction
  validateCloseLink prototype entry

end RivetLua.Bytecode
