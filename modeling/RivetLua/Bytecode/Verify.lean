import RivetLua.Bytecode.NumericFor

namespace RivetLua.Bytecode

open RivetLua.Core Check

/-!
# Bytecode — control flow, open results and the verifier

A call, a vararg or a return with `ResultMode.all` leaves or takes an *open result*: as many
values as there are, from a base register on.  The dataflow check propagates the base of the open
result that is live before each instruction, over all paths from the entry.

* `Instruction.successors`, `Instruction.nextOpen` — what an instruction does to control and to
  the open result;
* `visitInstruction` — the checks at one instruction, under the open result recorded for it;
* `verifyControlAndDataflow` — the worklist;
* `verifyModule` — the verifier.
-/

/-! ### One instruction -/

/-- A call that takes its arguments up to the open result. -/
def Instruction.dynamicBase : Instruction → Option Register
  | .call base argCount _ | .tailCall base argCount _ =>
    if argCount = dynamicArguments then some base else none
  | _ => none

/-- An instruction that leaves an open result, with its base. -/
def Instruction.openProducer : Instruction → Option Register
  | .call base _ .all => some base
  | .vararg base .all => some base
  | _ => none

/-- The producer behind a dynamic call: the nearest preceding instruction that is not a move
    into the fixed part of the argument window.  The number says how many instructions stand
    before the place reached. -/
def producerBefore (prototype : BytecodePrototype) (outerBase producer : Register) :
    Nat → Except BytecodeError (Option Register)
  | 0 => .error (verify 0 "RVLU 動態 call 缺少 open producer")
  | previous + 1 =>
    match prototype.instructions[previous]?.map BytecodeInstruction.instruction with
    | some (.move dest src) =>
      if dest < outerBase ∧ src < producer then
        producerBefore prototype outerBase producer previous
      else .ok none
    | some instruction => .ok instruction.openProducer
    | none => .ok none

/-- The checks at a dynamic call; every other instruction passes. -/
def validateDynamicConsumer (prototype : BytecodePrototype) (index : Nat)
    (openBase : Option Register) (instruction : Instruction) : Except BytecodeError Unit :=
  match instruction.dynamicBase with
  | none => .ok ()
  | some outerBase => do
    let producer ← some? openBase (verify 0 "RVLU 動態 call 引數缺少 open producer")
    let source ← producerBefore prototype outerBase producer index
    reject (source ≠ some producer ∨ producer ≤ outerBase)
      (verify 0 "RVLU 動態 call 引數 producer 順序或 base 無效")

/-- A move below the open result leaves it alone. -/
def Instruction.topPreservingMove (openBase : Option Register) : Instruction → Bool
  | .move dest src =>
    match openBase with
    | some producer => decide (dest < producer ∧ src < producer)
    | none => false
  | _ => false

/-- Close and return of all results may run while an open result is live. -/
def Instruction.toleratesOpen : Instruction → Bool
  | .close _ _ => true
  | .ret _ .all => true
  | _ => false

/-- The open result behind an instruction. -/
def Instruction.nextOpen (openBase : Option Register) : Instruction →
    Except BytecodeError (Option Register)
  | .call base _ .all | .vararg base .all => .ok (some base)
  | .call _ argCount (.fixed _) => .ok (if argCount = dynamicArguments then none else openBase)
  | .ret base .all =>
    match openBase with
    | some producer =>
      if base ≤ producer then .ok none
      else .error (verify 0 "RVLU Return(All) 缺少可涵蓋的 open result")
    | none => .error (verify 0 "RVLU Return(All) 缺少可涵蓋的 open result")
  | .tailCall _ _ .all => .ok none
  | _ => .ok openBase

/-- The instruction behind this one, unless this is the last. -/
def requireFallThrough (count index : Nat) (message : String) : Except BytecodeError Nat := do
  reject (count ≤ index + 1) (verify 0 message)
  .ok (index + 1)

/-- The successors of an instruction. -/
def Instruction.successors (count index : Nat) : Instruction → Except BytecodeError (List Nat)
  | .jump target => .ok [target.toNat]
  | .jumpIfFalse _ target => do
    let next ← requireFallThrough count index "RVLU conditional jump fall-through 到 proto 尾端"
    .ok [target.toNat, next]
  | .numericForPrepare _ _ _ _ exit => do
    let next ← requireFallThrough count index "RVLU NumericForPrepare fall-through 到 proto 尾端"
    .ok [exit.toNat, next]
  | .numericForNext _ _ _ _ target exit => .ok [target.toNat, exit.toNat]
  | .ret _ _ | .tailCall _ _ _ => .ok []
  | _ => do
    let next ← requireFallThrough count index "RVLU reachable fall-through 到 proto 尾端"
    .ok [next]

/-- The checks at one instruction under the open result recorded for it: the open result behind
    it and its successors. -/
def visitInstruction (prototype : BytecodePrototype) (index : Nat) (openBase : Option Register)
    (instruction : Instruction) : Except BytecodeError (Option Register × List Nat) := do
  validateDynamicConsumer prototype index openBase instruction
  reject (openBase ≠ none ∧ instruction.toleratesOpen = false ∧ instruction.dynamicBase = none
      ∧ instruction.topPreservingMove openBase = false)
    (verify 0 "RVLU open result 未立即流向 Return(All)")
  let next ← instruction.nextOpen openBase
  let successors ← instruction.successors prototype.instructions.length index
  .ok (next, successors)

/-! ### The worklist -/

/-- The open result recorded for each instruction that has been reached. -/
abbrev DataflowStates := List (Option (Option Register))

/-- Hand an open result to the successors; new ones join the worklist, which is a stack. -/
def propagate (limits : VerifyLimits) (next : Option Register) :
    List Nat → DataflowStates → List Nat → Except BytecodeError (DataflowStates × List Nat)
  | [], states, worklist => .ok (states, worklist)
  | successor :: rest, states, worklist =>
    match states[successor]? with
    | none => .error (verify 0 "RVLU CFG successor 超出範圍")
    | some (some existing) =>
      if existing = next then propagate limits next rest states worklist
      else .error (verify 0 "RVLU CFG join dynamic top 不一致")
    | some none => do
      reject (limits.maxInstructions ≤ worklist.length) (limit 0 "RVLU CFG worklist 超過限制")
      propagate limits next rest (states.set successor (some next)) (successor :: worklist)

/-- The worklist loop.  An instruction joins the worklist once, when its state is recorded, so
    as many rounds as there are instructions suffice. -/
def dataflow (prototype : BytecodePrototype) (limits : VerifyLimits) :
    Nat → DataflowStates → List Nat → Except BytecodeError DataflowStates
  | _, states, [] => .ok states
  | 0, states, _ :: _ => .ok states
  | rounds + 1, states, index :: worklist =>
    match states[index]?.join, prototype.instructions[index]? with
    | some openBase, some entry => do
      let (next, successors) ← visitInstruction prototype index openBase entry.instruction
      let (states', worklist') ← propagate limits next successors states worklist
      dataflow prototype limits rounds states' worklist'
    | _, _ => .error (verify 0 "RVLU CFG worklist state 遺失")

/-- `verify_control_and_dataflow`. -/
def verifyControlAndDataflow (prototype : BytecodePrototype) (limits : VerifyLimits) :
    Except BytecodeError Unit := do
  reject (prototype.instructions = []) (verify 0 "RVLU prototype 不可空且不得 fall-through")
  reject (prototype.frame.dynamicTop < prototype.frame.initialTop)
    (verify 0 "RVLU frame dynamic top 不可低於 initial top")
  let count := prototype.instructions.length
  reject (limits.maxInstructions < count) (limit 0 "RVLU CFG worklist 超過限制")
  let _ ← dataflow prototype limits count ((List.replicate count none).set 0 (some none)) [0]
  .ok ()

/-! ### Prototypes and modules -/

/-- The checks of a named vararg. -/
def validateNamedVararg (prototype : BytecodePrototype) (profile : LuaProfile) :
    Except BytecodeError Unit :=
  match prototype.namedVararg with
  | none => .ok ()
  | some (binding, register) => do
    reject (prototype.isVariadic = false) (verify 0 "RVLU named vararg 必須標記 variadic")
    reject (profile ≠ .lua55) (verify 0 "lua54 不可攜帶 named vararg metadata")
    reject (prototype.registerCount ≤ register ∨ (binding, register) ∉ prototype.bindingRegisters)
      (verify 0 "RVLU named vararg binding/register 無效")

/-- The checks of the environment source. -/
def validateEnvironmentSource (prototype : BytecodePrototype) (module : BytecodeModule) :
    Except BytecodeError Unit :=
  match prototype.frame.environmentSource with
  | .rootExternal =>
    reject (prototype.parent ≠ none) (verify 0 "非 root frame 不可使用外部 environment source")
  | .parentFrame parent register => do
    let parentPrototype ← some?
      (module.prototypes.find? fun candidate => decide (candidate.id = parent))
      (verify 0 "RVLU environment parent prototype 不存在")
    reject (prototype.parent ≠ some parent ∨ register ≠ parentPrototype.frame.environment)
      (verify 0 "RVLU ParentFrame environment source 無效")
  | .parentLocal upvalue => do
    let source ← some? prototype.upvalues[upvalue.toNat]?
      (verify 0 "RVLU environment upvalue 不存在")
    match source.source with
    | .parentLocal _ => .ok ()
    | .parentUpvalue _ => .error (verify 0 "RVLU environment upvalue source 不符")
  | .parentUpvalue upvalue => do
    let source ← some? prototype.upvalues[upvalue.toNat]?
      (verify 0 "RVLU environment upvalue 不存在")
    match source.source with
    | .parentLocal _ => .error (verify 0 "RVLU environment upvalue source 不符")
    | .parentUpvalue _ => .ok ()

/-- The span and shape of every instruction. -/
def validateInstructions (prototype : BytecodePrototype) (module : BytecodeModule) :
    Except BytecodeError Unit :=
  each (fun entry => do
      reject (entry.1.span.endByte < entry.1.span.startByte
          ∨ prototype.span.endByte < entry.1.span.endByte)
        (verify 0 "RVLU instruction span 無效")
      validateInstructionShape prototype module entry.2 entry.1)
    prototype.instructions.zipIdx

/-- `validate_prototype`. -/
def validatePrototype (alloc : Allocator) (prototype : BytecodePrototype)
    (module : BytecodeModule) (limits : VerifyLimits) : Except BytecodeError Unit := do
  reject (prototype.span.endByte < prototype.span.startByte
      ∨ module.span.endByte < prototype.span.endByte)
    (verify 0 "RVLU prototype span 無效")
  reject (limits.maxRegisters < prototype.registerCount
      ∨ limits.maxRegisters < prototype.frame.registerLimit
      ∨ prototype.registerCount ≤ prototype.frame.environment
      ∨ prototype.registerCount ≤ prototype.frame.returnBase
      ∨ prototype.registerCount < prototype.frame.initialTop
      ∨ prototype.registerCount < prototype.frame.dynamicTop)
    (limit 0 "RVLU frame register 超過限制")
  reject (prototype.registerCount ≤ prototype.parameterCount)
    (verify 0 "RVLU parameter count 超出 frame")
  validateNamedVararg prototype module.profile
  reject (limits.maxConstants < prototype.constants.length) (limit 0 "RVLU constant 數超過限制")
  reject (limits.maxInstructions < prototype.instructions.length)
    (limit 0 "RVLU instruction 數超過限制")
  reject (limits.maxUpvaluesPerPrototype < prototype.upvalues.length)
    (limit 0 "RVLU upvalue 數超過限制")
  reject (∃ parent ∈ prototype.parent, ¬ ∃ candidate ∈ module.prototypes, candidate.id = parent)
    (verify 0 "RVLU parent prototype 不存在")
  reject (prototype.frame.environment ≠ prototype.globalEnvironment)
    (verify 0 "RVLU frame environment slot 不符")
  validateEnvironmentSource prototype module
  validateMetadata prototype
  validateInstructions prototype module
  validateCloseDeclarationMarkers prototype
  validateNumericForPairs alloc prototype
  verifyControlAndDataflow prototype limits

/-- What the loop of `verify_module` over the prototypes carries along. -/
structure VerifyTotals where
  seenPrototypes : List ProtoId := []
  seenFunctions : List UInt32 := []
  instructions : Nat := 0
  constants : Nat := 0

/-- The loop of `verify_module` over the prototypes. -/
def verifyPrototypes (alloc : Allocator) (module : BytecodeModule) (limits : VerifyLimits) :
    VerifyTotals → List BytecodePrototype → Except BytecodeError Unit
  | _, [] => .ok ()
  | totals, prototype :: rest => do
    let instructions := totals.instructions + prototype.instructions.length
    let constants := totals.constants + prototype.constants.length
    reject (limits.maxInstructions < instructions)
      (limit 0 "RVLU module instruction 總量超過限制")
    reject (limits.maxConstants < constants) (limit 0 "RVLU module constant 總量超過限制")
    reject (prototype.id ∈ totals.seenPrototypes) (verify 0 "RVLU prototype ID 重複")
    reject (prototype.function ∈ totals.seenFunctions) (verify 0 "RVLU function ID 重複")
    validatePrototype alloc prototype module limits
    verifyPrototypes alloc module limits
      ⟨totals.seenPrototypes ++ [prototype.id], totals.seenFunctions ++ [prototype.function],
        instructions, constants⟩ rest

/-- An entry of the function table names a prototype of the module and its function. -/
def validateFunctionPrototype (module : BytecodeModule) (entry : UInt32 × ProtoId) :
    Except BytecodeError Unit := do
  let candidate ← some? (module.prototypes.find? fun candidate => decide (candidate.id = entry.2))
    (verify 0 "RVLU function/prototype map 指向不存在 prototype")
  reject (candidate.function ≠ entry.1) (verify 0 "RVLU function/prototype map 不符")

/-- `RVLU_NUMERIC_I64_F64`. -/
def rvluNumericI64F64 : UInt8 := 1

/-- The units a transport scan of a close path costs. -/
def BytecodeClosePath.scanUnits (path : BytecodeClosePath) : Nat :=
  path.bindings.length + path.registers.length

/-- The units a transport scan of a constant costs. -/
def BytecodeConstant.scanUnits : BytecodeConstant → Nat
  | .name bytes | .string bytes => bytes.length
  | _ => 0

/-- The units a transport scan of a prototype costs. -/
def BytecodePrototype.scanUnits (prototype : BytecodePrototype) : Nat :=
  prototype.constants.length + prototype.instructions.length + prototype.upvalues.length
    + prototype.bindingRegisters.length + prototype.closePaths.length
    + (prototype.constants.map BytecodeConstant.scanUnits).sum
    + ((prototype.closePaths
        ++ prototype.instructions.filterMap BytecodeInstruction.closePath).map
          BytecodeClosePath.scanUnits).sum

/-- `module_transport_scan_units`. -/
def moduleTransportScanUnits (module : BytecodeModule) : Nat :=
  module.prototypes.length + 1 + (module.prototypes.map BytecodePrototype.scanUnits).sum

/-- The checks of `verify_module`. -/
def checkModule (alloc : Allocator) (module : BytecodeModule) (expectedProfile : LuaProfile)
    (limits : VerifyLimits) : Except BytecodeError Unit := do
  reject (module.formatVersion ≠ rvluV2) (verify 0 "RVLU v1 或未知 format version 不可驗證")
  reject (module.profile ≠ expectedProfile) (verify 0 "RVLU profile 不符")
  reject (module.numericConfig ≠ rvluNumericI64F64)
    (verify 0 "RVLU numeric configuration 不支援")
  reject (module.span.endByte < module.span.startByte) (verify 0 "RVLU module span 無效")
  reject (limits.maxPrototypes < module.prototypes.length) (limit 0 "RVLU prototype 數超過限制")
  reject (module.functionPrototypes.length ≠ module.prototypes.length)
    (verify 0 "RVLU function/prototype map 長度不符")
  verifyPrototypes alloc module limits ⟨[], [], 0, 0⟩ module.prototypes
  each (validateFunctionPrototype module) module.functionPrototypes

/-- A module that passed the verifier, with its transport scan units.  The sidecars that later
    stages attach are absent here. -/
structure VerifiedModule where
  module : BytecodeModule
  transportScanUnits : Nat
  deriving DecidableEq

/-- `verify_module`. -/
def verifyModule (alloc : Allocator) (module : BytecodeModule) (expectedProfile : LuaProfile)
    (limits : VerifyLimits) : Except BytecodeError VerifiedModule := do
  checkModule alloc module expectedProfile limits
  .ok ⟨module, moduleTransportScanUnits module⟩

/-! ### What an accepted prototype satisfies -/

/-- Everything `validatePrototype` checks. -/
structure PrototypeVerified (alloc : Allocator) (prototype : BytecodePrototype)
    (module : BytecodeModule) (limits : VerifyLimits) : Prop where
  span : ¬ (prototype.span.endByte < prototype.span.startByte
    ∨ module.span.endByte < prototype.span.endByte)
  frame : ¬ (limits.maxRegisters < prototype.registerCount
    ∨ limits.maxRegisters < prototype.frame.registerLimit
    ∨ prototype.registerCount ≤ prototype.frame.environment
    ∨ prototype.registerCount ≤ prototype.frame.returnBase
    ∨ prototype.registerCount < prototype.frame.initialTop
    ∨ prototype.registerCount < prototype.frame.dynamicTop)
  parameters : ¬ prototype.registerCount ≤ prototype.parameterCount
  namedVararg : validateNamedVararg prototype module.profile = .ok ()
  constants : ¬ limits.maxConstants < prototype.constants.length
  instructionCount : ¬ limits.maxInstructions < prototype.instructions.length
  upvalueCount : ¬ limits.maxUpvaluesPerPrototype < prototype.upvalues.length
  parent : ¬ ∃ parent ∈ prototype.parent,
    ¬ ∃ candidate ∈ module.prototypes, candidate.id = parent
  environment : ¬ prototype.frame.environment ≠ prototype.globalEnvironment
  environmentSource : validateEnvironmentSource prototype module = .ok ()
  metadata : validateMetadata prototype = .ok ()
  instructions : validateInstructions prototype module = .ok ()
  markers : validateCloseDeclarationMarkers prototype = .ok ()
  numericFor : validateNumericForPairs alloc prototype = .ok ()
  dataflow : verifyControlAndDataflow prototype limits = .ok ()

theorem validatePrototype_eq_ok {alloc : Allocator} {prototype : BytecodePrototype}
    {module : BytecodeModule} {limits : VerifyLimits} :
    validatePrototype alloc prototype module limits = .ok () ↔
      PrototypeVerified alloc prototype module limits := by
  simp only [validatePrototype, then_eq_ok, reject_eq_ok]
  constructor
  · rintro ⟨h1, h2, h3, h4, h5, h6, h7, h8, h9, h10, h11, h12, h13, h14, h15⟩
    exact ⟨h1, h2, h3, h4, h5, h6, h7, h8, h9, h10, h11, h12, h13, h14, h15⟩
  · rintro ⟨h1, h2, h3, h4, h5, h6, h7, h8, h9, h10, h11, h12, h13, h14, h15⟩
    exact ⟨h1, h2, h3, h4, h5, h6, h7, h8, h9, h10, h11, h12, h13, h14, h15⟩

/-- The shape check holds at every instruction. -/
theorem validateInstructions_eq_ok {prototype : BytecodePrototype} {module : BytecodeModule} :
    validateInstructions prototype module = .ok () ↔
      ∀ index entry, prototype.instructions[index]? = some entry →
        ¬ (entry.span.endByte < entry.span.startByte
          ∨ prototype.span.endByte < entry.span.endByte)
        ∧ validateInstructionShape prototype module index entry = .ok () := by
  simp only [validateInstructions, each_eq_ok, then_eq_ok, reject_eq_ok, Prod.forall,
    List.mem_zipIdx_iff_getElem?]
  constructor
  · intro h index entry hentry
    exact h entry index hentry
  · intro h entry index hentry
    exact h index entry hentry

end RivetLua.Bytecode
