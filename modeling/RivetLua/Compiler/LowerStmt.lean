import RivetLua.Compiler.LowerExpr

namespace RivetLua.Compiler

open RivetLua.Core
open RivetLua.Bytecode (Register ConstId ProtoId InstructionOffset ResultMode EnvironmentSource
  FrameLayout Instruction UnaryOperation BinaryOperation dynamicArguments)

/-!
# Compiler — lowering statements

Statements are lowered in order; jumps forward are emitted with a placeholder and patched when
their target is known.  Every way out of a scope closes the captured and the to-be-closed bindings
of its close path, and clears the registers of the bindings that leave.

* `lowerFixedValues`, `lowerReturnValues` — expression lists;
* `emitClose`, `emitExitedBindingCleanup` — the ways out;
* `lowerStatement`, `lowerBlock` — statements.
-/

/-! ### Expression lists -/

/-- The loop of `lower_fixed_values`: the values go to the registers from `base + filled` on as
    they are evaluated; values beyond `count` are evaluated and dropped. -/
def lowerValuesInto (ctx : BuilderContext) (base : Register) (count : Nat) (span : Span) :
    Nat → List ResolvedExpr → Lower (Nat × List Input)
  | filled, [] => return (filled, [])
  | filled, value :: rest =>
    if rest.isEmpty && isOpenExpression value then
      if count - filled = 0 then do
        let _ ← lowerExpr ctx value
        return (filled, [])
      else do
        let resultCount ← toU16 (count - filled) span "多值調整 result 數超過 IR 限制"
        lowerOpenExpressionAt ctx value (← registerOffset base filled span) (.fixed resultCount)
          span
        return (count, [])
    else do
      let source ← inputOf (← lowerExpr ctx value)
      if filled < count then do
        emit ctx (.move (← registerOffset base filled span) source.register) span none
        let (filled', inputs) ← lowerValuesInto ctx base count span (filled + 1) rest
        return (filled', source :: inputs)
      else lowerValuesInto ctx base count span filled rest

/-- `LoadNil` for the registers `base + index` with `index` from `filled` on. -/
def fillNil (ctx : BuilderContext) (base : Register) (span : Span) : Nat → Nat → Lower Unit
  | _, 0 => pure ()
  | index, missing + 1 => do
    emit ctx (.loadNil (← registerOffset base index span) 1) span none
    fillNil ctx base span (index + 1) missing

/-- The registers `lower_fixed_values` reserves: an open last expression needs room for its whole
    window, even if fewer results are wanted. -/
def fixedValueSlots (values : List ResolvedExpr) (count : Nat) (span : Span) : Lower Nat :=
  match values.getLast? with
  | some last =>
    if isOpenExpression last && decide (min (values.length - 1) count < count) then do
      let slots ← openSlots span last
      return max count (min (values.length - 1) count + slots)
    else return count
  | none => return count

/-- `Builder::lower_fixed_values`. -/
def lowerFixedValues (ctx : BuilderContext) (values : List ResolvedExpr) (count : Nat)
    (span : Span) : Lower Register := do
  let slots ← fixedValueSlots values count span
  let start ← currentPc
  let base ← reserveRegisters ctx slots span
  let (filled, inputs) ← lowerValuesInto ctx base count span 0 values
  fillNil ctx base span filled (count - filled)
  recordWindow inputs base start base
  return base

/-- Evaluate expressions in order. -/
def lowerInputs (ctx : BuilderContext) : List ResolvedExpr → Lower (List Input)
  | [] => return []
  | value :: rest => do
    let input ← inputOf (← lowerExpr ctx value)
    let inputs ← lowerInputs ctx rest
    return input :: inputs

/-- `Builder::lower_return_values`. -/
def lowerReturnValues (ctx : BuilderContext) (values : List ResolvedExpr) (span : Span) :
    Lower (Register × ResultMode) :=
  match values.getLast? with
  | none => return (0, .fixed 0)
  | some last =>
    if isOpenExpression last then do
      let start ← currentPc
      let floor := (← get).nextRegister
      let inputs ← lowerInputs ctx values.dropLast
      let slots ← openSlots span last
      let base ← reserveRegisters ctx (inputs.length + slots) span
      moveInputs ctx base span 0 inputs
      lowerOpenExpressionAt ctx last (← registerOffset base inputs.length span) .all span
      recordWindow inputs base start floor
      return (base, .all)
    else do
      let base ← lowerFixedValues ctx values values.length span
      let count ← toU16 values.length span "return result 數超過 IR 限制"
      return (base, .fixed count)

/-- `Builder::prepare_open_call`. -/
def prepareOpenCall (ctx : BuilderContext) (expression : ResolvedExpr) (span : Span) :
    Lower (Register × UInt16) :=
  match expression with
  | .call callee arguments _ => do
    let calleeInput ← inputOf (← lowerExpr ctx callee)
    lowerCallInputs ctx calleeInput [] (lowerFixedArguments ctx span arguments)
      (if openLast? arguments then some (lowerOpenLast ctx span arguments) else none) none span
  | .methodCall receiver method arguments _ => do
    let receiverInput ← inputOf (← lowerExpr ctx receiver)
    let callee ← lookupMethod ctx receiverInput.register method span
    lowerCallInputs ctx callee [receiverInput] (lowerFixedArguments ctx span arguments)
      (if openLast? arguments then some (lowerOpenLast ctx span arguments) else none) none span
  | _ => stop span "只有 Call 可作 call statement 或 tail call"

/-! ### Ways out -/

/-- Some direct child captures the binding. -/
def BuilderContext.captured (ctx : BuilderContext) (binding : BindingId) : Prop :=
  ∃ child ∈ ctx.functions, child.parent = some ctx.function.id
    ∧ .parentLocal binding ∈ child.upvalues

instance (ctx : BuilderContext) (binding : BindingId) : Decidable (ctx.captured binding) :=
  inferInstanceAs (Decidable (∃ child ∈ ctx.functions, child.parent = some ctx.function.id
    ∧ .parentLocal binding ∈ child.upvalues))

/-- `Builder::emit_captured_binding_close`. -/
def emitCapturedBindingClose (ctx : BuilderContext) (binding : BindingId) (span : Span) :
    Lower Unit :=
  if ctx.captured binding then do
    let register ← bindingRegister ctx binding span
    emit ctx (.close register 0) span none
  else pure ()

/-- `Builder::emit_upvalue_close`. -/
def emitUpvalueClose (ctx : BuilderContext) (path : ClosePath) : Lower Unit :=
  path.exitedBindings.forM fun binding => emitCapturedBindingClose ctx binding path.span

/-- The registers of bindings. -/
def bindingRegistersOf (ctx : BuilderContext) (span : Span) :
    List BindingId → Lower (List Register)
  | [] => return []
  | binding :: rest => do
    let register ← bindingRegister ctx binding span
    let registers ← bindingRegistersOf ctx span rest
    return register :: registers

/-- `Builder::emit_tbc_close`. -/
def emitTbcClose (ctx : BuilderContext) (path : ClosePath) : Lower Unit :=
  if path.bindings = [] then pure ()
  else do
    let registers ← bindingRegistersOf ctx path.span path.bindings
    let irPath : IrClosePath :=
      ⟨path.kind, path.span, path.fromScope, path.targetScope, path.bindings, registers⟩
    modify fun b => { b with closePaths := b.closePaths ++ [irPath] }
    registers.forM fun register => emit ctx (.close register 1) path.span (some irPath)

/-- `Builder::emit_close`. -/
def emitClose (ctx : BuilderContext) (path : ClosePath) : Lower Unit := do
  emitUpvalueClose ctx path
  emitTbcClose ctx path

/-- `Builder::emit_exited_binding_cleanup`. -/
def emitExitedBindingCleanup (ctx : BuilderContext) (path : ClosePath) : Lower Unit :=
  path.exitedBindings.forM fun binding => do
    let register ← bindingRegister ctx binding path.span
    emit ctx (.loadNil register 1) path.span none

/-- `Builder::close_declaration_marker`. -/
def closeDeclarationMarker (binding : BindingId) (register : Register) (span : Span)
    (scope : ScopeId) : IrClosePath :=
  ⟨.normal, span, scope, some scope, [binding], [register]⟩

/-- The offset of a label that a goto may reach. -/
def knownLabel (frames : List LabelFrame) (scope : ScopeId) (name : List UInt8) :
    Option (Option InstructionOffset) :=
  (frames.reverse.find? fun frame => decide (frame.scope = scope)).bind fun frame =>
    (frame.labels.find? fun label => decide (label.name = name)).map LabelEntry.offset

/-- `Builder::lower_goto`. -/
def lowerGoto (ctx : BuilderContext) (name : List UInt8) (closePath : ClosePath) (span : Span) :
    Lower Unit := do
  let targetScope ← orStop closePath.targetScope span "P04 goto 缺少目標 scope"
  let known ← orStop (knownLabel (← get).labelFrames targetScope name) span
    "P04 goto 目標 label 不在 lexical scope"
  emitClose ctx closePath
  emitExitedBindingCleanup ctx closePath
  let jump ← emitJumpPlaceholder ctx span
  match known with
  | some offset => patchJump ctx jump offset
  | none =>
    modify fun b => { b with pendingGotos := b.pendingGotos ++ [⟨jump, targetScope, name, span⟩] }

/-- `Builder::lower_break`. -/
def lowerBreak (ctx : BuilderContext) (closePath : ClosePath) (span : Span) : Lower Unit := do
  stopIf ((← get).loops = []) span "P04 break 不在 loop 中"
  emitClose ctx closePath
  emitExitedBindingCleanup ctx closePath
  let jump ← emitJumpPlaceholder ctx span
  modify fun b =>
    { b with
      loops := match b.loops.getLast? with
        | some frame => b.loops.dropLast ++ [⟨frame.breakPatches ++ [jump]⟩]
        | none => b.loops }

/-- `Builder::lower_tail_return`. -/
def lowerTailReturn (ctx : BuilderContext) (expression : ResolvedExpr) (closePath : ClosePath)
    (span : Span) : Lower Unit := do
  let (base, argCount) ← prepareOpenCall ctx expression span
  if closePath.bindings = [] then
    -- an open last argument has to stand right before the tail call
    if argCount ≠ dynamicArguments then
      emitUpvalueClose ctx closePath
    markDynamicTop base
    emit ctx (.tailCall base argCount .all) span none
  else
    emit ctx (.call base argCount .all) span none
    recordWindow [] base (← currentPc) base
    markDynamicTop base
    emitClose ctx closePath
    emit ctx (.ret base .all) span none

/-- A call or a method call. -/
def ResolvedExpr.isCall : ResolvedExpr → Bool
  | .call _ _ _ | .methodCall _ _ _ _ => true
  | _ => false

/-- `Builder::lower_return`. -/
def lowerReturn (ctx : BuilderContext) (values : List ResolvedExpr) (closePath : ClosePath)
    (span : Span) : Lower Unit :=
  let lowerValues : Lower Unit := do
    let (base, resultMode) ← lowerReturnValues ctx values span
    emitClose ctx closePath
    emit ctx (.ret base resultMode) span none
  match values with
  | [value] => if value.isCall then lowerTailReturn ctx value closePath span else lowerValues
  | _ => lowerValues

/-! ### Assignments -/

/-- `PreparedAssignmentTarget`: the place of a target, fixed before the values are evaluated. -/
inductive PreparedAssignmentTarget where
  | register (register : Register)
  | upvalue (upvalue : RivetLua.Bytecode.UpvalueId)
  | table (table key : Register)
  deriving DecidableEq, Repr

/-- `Builder::snapshot_table_target`. -/
def snapshotTableTarget (ctx : BuilderContext) (table key : Register) (span : Span) :
    Lower PreparedAssignmentTarget := do
  let tableSnapshot ← allocate ctx span
  emit ctx (.move tableSnapshot table) span none
  let keySnapshot ← allocate ctx span
  emit ctx (.move keySnapshot key) span none
  return .table tableSnapshot keySnapshot

/-- `Builder::prepare_assignment_target`. -/
def prepareAssignmentTarget (ctx : BuilderContext) (span : Span) :
    ResolvedExpr → Lower PreparedAssignmentTarget
  | .name _ (.local binding) _ => do
    return .register (← bindingRegister ctx binding span)
  | .name _ (.upvalue upvalue) _ => do
    return .upvalue (← toU16 upvalue.index.toNat span "upvalue ID 超過 IR 限制")
  | .index base index _ => do
    let table ← lowerExpr ctx base
    let key ← lowerExpr ctx index
    snapshotTableTarget ctx table key span
  | .field base name _ => do
    let table ← lowerExpr ctx base
    let key ← nameConstant ctx name span
    snapshotTableTarget ctx table key span
  | .name name (.envField env _) _ => do
    let key ← nameConstant ctx name span
    let table ← bindingValue ctx env span
    snapshotTableTarget ctx table key span
  | .name name (.global _) _ => do
    let key ← nameConstant ctx name span
    snapshotTableTarget ctx ctx.globalEnvironment key span
  | _ => stop span "P04 assignment target 不可 lower"

/-- Prepare targets in order. -/
def prepareTargets (ctx : BuilderContext) (span : Span) :
    List ResolvedExpr → Lower (List PreparedAssignmentTarget)
  | [] => return []
  | target :: rest => do
    let prepared ← prepareAssignmentTarget ctx span target
    let others ← prepareTargets ctx span rest
    return prepared :: others

/-- `Builder::store_prepared_target`. -/
def storePreparedTarget (ctx : BuilderContext) (target : PreparedAssignmentTarget)
    (value : Register) (span : Span) : Lower Unit :=
  match target with
  | .register dest => emit ctx (.move dest value) span none
  | .upvalue upvalue => emit ctx (.setUpvalue upvalue value) span none
  | .table table key => emit ctx (.setTable table key value) span none

/-- Store the values from `base + index` on. -/
def storePreparedTargets (ctx : BuilderContext) (base : Register) (span storeSpan : Span) :
    Nat → List PreparedAssignmentTarget → Lower Unit
  | _, [] => pure ()
  | index, target :: rest => do
    storePreparedTarget ctx target (← registerOffset base index span) storeSpan
    storePreparedTargets ctx base span storeSpan (index + 1) rest

/-- `Builder::store_target`. -/
def storeTarget (ctx : BuilderContext) (target : ResolvedExpr) (value : Register) (span : Span) :
    Lower Unit := do
  let destination ← prepareAssignmentTarget ctx span target
  storePreparedTarget ctx destination value span

/-- A name. -/
def ResolvedExpr.isName : ResolvedExpr → Bool
  | .name _ _ _ => true
  | _ => false

/-- The span of the operator in `name = local[literal] op right`, with the span of `right`. -/
def binaryGap : List ResolvedExpr → List ResolvedExpr → Option (Span × Span)
  | [target], [.binary _ left right _] =>
    let gap := operatorSpan left right
    if target.isName && left.isLocalIndexByLiteral && decide (gap.startByte < gap.endByte) then
      some (gap, right.span)
    else none
  | _, _ => none

/-- Is this a binary operation? -/
def isBinaryOp : Instruction → Bool
  | .binaryOp _ _ _ _ => true
  | _ => false

/-- The address behind the last binary operation from an address on. -/
def afterLastBinary (start : Nat) (instructions : List IrInstruction) : Option Nat :=
  (((instructions.drop start).zipIdx.reverse).find? fun entry =>
    isBinaryOp entry.1.instruction).map fun entry => start + entry.2 + 1

/-- The number of registers taken since `start`. -/
def temporariesSince (start : UInt16) : Lower UInt16 := fun b => .ok (b.nextRegister - start, b)

/-- `ResolvedStmt::Assignment`. -/
def lowerAssignment (ctx : BuilderContext) (targets values : List ResolvedExpr) (span : Span) :
    Lower Unit := do
  let gap? := binaryGap targets values
  let temporaryStart := (← get).nextRegister
  let targetStart ← currentPc
  let destinations ← prepareTargets ctx span targets
  if let some (gap, _) := gap? then
    respanFrom targetStart fun _ => gap
  let valuesStart ← currentPc
  let base ← lowerFixedValues ctx values targets.length span
  if let some (gap, _) := gap? then
    if let some start := afterLastBinary valuesStart (← get).instructions then
      respanFrom start fun s => if s = span then gap else s
  let storeSpan := match gap? with
    | some (_, right) => right.lastByte
    | none => span
  storePreparedTargets ctx base span storeSpan 0 destinations
  let temporaryCount ← temporariesSince temporaryStart
  if temporaryCount ≠ 0 then
    let _ ← emitNonCounted ctx (.loadNil temporaryStart temporaryCount) storeSpan

/-! ### Local declarations -/

/-- Is this a function expression? -/
def ResolvedExpr.isFunction : ResolvedExpr → Bool
  | .function _ _ => true
  | _ => false

/-- The marker of a to-be-closed binding. -/
def BuilderContext.closeMarker (ctx : BuilderContext) (binding : BindingId) : Option Span :=
  (ctx.function.bindings.find? fun candidate => decide (candidate.id = binding)).bind
    BindingMeta.closeMarker

/-- A known binding without a marker. -/
def BuilderContext.isPlainBinding (ctx : BuilderContext) (binding : BindingId) : Bool :=
  match ctx.function.bindings.find? fun candidate => decide (candidate.id = binding) with
  | some candidate => candidate.closeMarker.isNone
  | none => false

/-- A closure and the copy of it. -/
def isClosureAndMove : List IrInstruction → Bool
  | [first, second] =>
    match first.instruction, second.instruction with
    | .closure _ _, .move _ _ => true
    | _, _ => false
  | _ => false

/-- `single_closure_expansion`: `local f = function … end`. -/
def isSingleClosure (ctx : BuilderContext) (bindings : List BindingId)
    (values : List ResolvedExpr) (emitted : List IrInstruction) : Bool :=
  match bindings, values with
  | [binding], [value] =>
    value.isFunction && ctx.isPlainBinding binding && isClosureAndMove emitted
  | _, _ => false

/-- The close path of a declaration, for a to-be-closed binding. -/
def declarationMarker (ctx : BuilderContext) (binding : BindingId) (dest : Register)
    (span : Span) : Lower (Option IrClosePath) :=
  match ctx.closeMarker binding with
  | none => return none
  | some _ => do
    let frame ← orStop (← get).labelFrames.getLast? span "local scope 已建立"
    return some (closeDeclarationMarker binding dest span frame.scope)

/-- Copy the values from `base + index` on into the registers of the bindings. -/
def initializeBindings (ctx : BuilderContext) (base : Register) (span debugSpan : Span)
    (single : Bool) : Nat → List BindingId → Lower Unit
  | _, [] => pure ()
  | index, binding :: rest => do
    let dest ← bindingRegister ctx binding span
    let src ← registerOffset base index span
    let closePath ← declarationMarker ctx binding dest span
    emit ctx (.move dest src) debugSpan closePath
    if single then
      markLastNonCounted ctx span
    initializeBindings ctx base span debugSpan single (index + 1) rest

/-- The bindings become visible to the debugger. -/
def activateBindings (ctx : BuilderContext) (initializedStart startPc : Nat) :
    Nat → List (BindingId × Span) → Lower Unit
  | _, [] => pure ()
  | index, (binding, span) :: rest => do
    activateDebugBinding ctx binding (initializedStart + index) startPc span
    activateBindings ctx initializedStart startPc (index + 1) rest

/-- The slots that are reserved while the values of a declaration are evaluated. -/
def recordInitializers (ctx : BuilderContext) (rhsStart : Nat) (span : Span) :
    List IrNativeLocal → Lower Unit
  | [] => pure ()
  | entry :: rest => do
    stopIf (ctx.limits.maxInstructions ≤ (← get).debugInitializerTemporaries.length) span
      "native debug initializer temporary 數超過 IR 限制"
    let startPc ← toU32 rhsStart span "native debug initializer 起始 PC 溢位"
    modify fun b =>
      { b with
        debugInitializerTemporaries := b.debugInitializerTemporaries
          ++ [⟨entry.binding, entry.register, entry.slot, startPc, entry.startPc⟩] }
    recordInitializers ctx rhsStart span rest

/-- `ResolvedStmt::Local`. -/
def lowerLocal (ctx : BuilderContext) (bindings : List BindingId) (values : List ResolvedExpr)
    (span : Span) : Lower Unit := do
  let rhsStart ← currentPc
  let debugSpan := match values with
    | [.function body _] => body.span.lastByte
    | _ => span
  let temporaryStart := (← get).nextRegister
  let base ← lowerFixedValues ctx values bindings.length span
  let single := isSingleClosure ctx bindings values ((← get).instructions.drop rhsStart)
  if single then
    respanFrom (rhsStart + 1) fun _ => debugSpan
    markLastNonCounted ctx span
  let initializedStart ← currentPc
  initializeBindings ctx base span debugSpan single 0 bindings
  let temporaryCount ← temporariesSince temporaryStart
  if temporaryCount ≠ 0 then
    emit ctx (.loadNil temporaryStart temporaryCount) debugSpan none
    if single then
      markLastNonCounted ctx span
  let startPc ← currentPc
  activateBindings ctx initializedStart startPc 0 (bindings.map fun binding => (binding, span))
  if rhsStart < startPc then
    let locals := (← get).debugLocals
    recordInitializers ctx rhsStart span (locals.drop (locals.length - bindings.length))

/-- `ResolvedStmt::LocalFunction`. -/
def lowerLocalFunction (ctx : BuilderContext) (name : ResolvedLocalName)
    (body : ResolvedFunctionBody) (span : Span) : Lower Unit := do
  let debugSpan := body.span.lastByte
  let temporaryStart := (← get).nextRegister
  let closure ← lowerFunction ctx body
  let dest ← bindingRegister ctx name.binding span
  let initializedPc ← currentPc
  emit ctx (.move dest closure) debugSpan none
  let temporaryCount ← temporariesSince temporaryStart
  if temporaryCount ≠ 0 then
    emit ctx (.loadNil temporaryStart temporaryCount) debugSpan none
  activateDebugBinding ctx name.binding initializedPc (← currentPc) span

/-! ### Calls and globals -/

/-- `Builder::lower_statement_call`. -/
def lowerStatementCall (ctx : BuilderContext) (expression : ResolvedExpr) (span : Span) :
    Lower Unit := do
  let temporaryStart := (← get).nextRegister
  let (base, argCount) ← prepareOpenCall ctx expression span
  emit ctx (.call base argCount (.fixed 0)) span none
  let count ← temporariesSince temporaryStart
  stopIf (count = 0) span "call statement 沒有私有暫存器"
  let cleanupPc ← currentPc
  emit ctx (.loadNil temporaryStart count) span none
  modify fun b =>
    { b with callStatementCleanups := b.callStatementCleanups ++ [(cleanupPc, temporaryStart)] }

/-- The names of a global declaration, each with its value or nil. -/
def lowerGlobalNames (ctx : BuilderContext) (span : Span) :
    List ResolvedLocalName → List ResolvedExpr → Lower Unit
  | [], _ => pure ()
  | name :: names, values => do
    let value ← match values with
      | value :: _ => lowerExpr ctx value
      | [] => nilRegister ctx span
    let key ← nameConstant ctx name.name name.span
    emit ctx (.setTable ctx.globalEnvironment key value) span none
    lowerGlobalNames ctx span names values.tail

/-- `Builder::lower_global`. -/
def lowerGlobal (ctx : BuilderContext) (declaration : ResolvedGlobalDeclaration) (span : Span) :
    Lower Unit :=
  match declaration with
  | .names _ [] _ _ => pure ()
  | .names names values _ _ => lowerGlobalNames ctx span names values
  | .star _ _ => pure ()
  | .function _ name body _ => do
    let value ← lowerFunction ctx body
    let key ← nameConstant ctx name span
    emit ctx (.setTable ctx.globalEnvironment key value) span none

/-! ### Loops -/

/-- Copy an expression list item into a control register of a numeric for. -/
def lowerForControl (ctx : BuilderContext) (value : Lower Register) (span : Span) :
    Lower Register := do
  let start ← currentPc
  let source ← value
  let dest ← allocate ctx span
  if start < (← currentPc) then
    let _ ← emitNonCounted ctx (.move dest source) span
  else
    emit ctx (.move dest source) span none
  return dest

/-- `ResolvedStmt::While`; `body` lowers the block. -/
def lowerWhile (ctx : BuilderContext) (condition : ResolvedExpr) (body : Lower Unit)
    (span : Span) : Lower Unit := do
  let loopStart ← currentOffset span
  let conditionRegister ← lowerExpr ctx condition
  let exitJump ← emitJumpIfFalsePlaceholder ctx conditionRegister condition.span
  pushLoop
  body
  emit ctx (.jump loopStart) span none
  let exit ← emitCfgAnchor ctx span
  patchJump ctx exitJump exit
  finishLoop ctx exit span

/-- `ResolvedStmt::Repeat`; `statements` lowers the statements of the block, whose scope the
    condition still sees. -/
def lowerRepeat (ctx : BuilderContext) (statements : Lower Unit) (bodySpan : Span)
    (normalClosePath : ClosePath) (condition : ResolvedExpr) (span : Span) : Lower Unit := do
  let loopStart ← emitCfgAnchor ctx bodySpan
  pushLoop
  statements
  let temporaryStart := (← get).nextRegister
  let conditionRegister ← lowerExpr ctx condition
  let temporaryCount ← temporariesSince temporaryStart
  let conditionValue ← allocate ctx span
  emit ctx (.move conditionValue conditionRegister) condition.span none
  if temporaryCount ≠ 0 then
    emit ctx (.loadNil temporaryStart temporaryCount) condition.span none
  emitClose ctx normalClosePath
  emitExitedBindingCleanup ctx normalClosePath
  endDebugScope bodySpan
  let falseJump ← emitJumpIfFalsePlaceholder ctx conditionValue condition.span
  emit ctx (.loadNil conditionValue 1) condition.span none
  let exitJump ← emitJumpPlaceholder ctx span
  patchJump ctx falseJump (← currentOffset span)
  emit ctx (.loadNil conditionValue 1) condition.span none
  emit ctx (.jump loopStart) span none
  let exit ← emitCfgAnchor ctx condition.span
  patchJump ctx exitJump exit
  finishLoop ctx exit span

/-- The step of a numeric for; the default is 1. -/
def lowerForStep (ctx : BuilderContext) (step : Option ResolvedExpr) (span : Span) :
    Lower Register :=
  match step with
  | some step => lowerExpr ctx step
  | none => constantRegister ctx (.literal (.integer (.integer 1))) span

/-- `ResolvedStmt::NumericFor`; `body` lowers the block. -/
def lowerNumericFor (ctx : BuilderContext) (name : ResolvedLocalName) (initial limit : ResolvedExpr)
    (step : Option ResolvedExpr) (body : Lower Unit) (span : Span) : Lower Unit := do
  let visible ← bindingRegister ctx name.binding span
  let control ← lowerForControl ctx (lowerExpr ctx initial) span
  let limitRegister ← lowerForControl ctx (lowerExpr ctx limit) span
  let stepRegister ← lowerForControl ctx (lowerForStep ctx step span) span
  let prepare ← currentPc
  emit ctx (.numericForPrepare control limitRegister stepRegister visible placeholder) span none
  let bodyStart ← emitCfgAnchor ctx span
  beginDebugScope ctx span
  activateDebugBinding ctx name.binding prepare bodyStart.toNat span
  pushLoop
  body
  emitCapturedBindingClose ctx name.binding span
  emit ctx (.numericForNext control limitRegister stepRegister visible bodyStart placeholder)
    span none
  let next := (← get).pc - 1
  let exit ← emitCfgAnchor ctx span
  patchNumericForExit ctx prepare exit
  patchNumericForExit ctx next exit
  finishLoop ctx exit span
  let _ ← emitNonCounted ctx (.loadNil visible 1) span
  endDebugScope span

/-- A copy in a fresh register. -/
def copyRegister (ctx : BuilderContext) (source : Register) (span : Span) : Lower Register := do
  let dest ← allocate ctx span
  emit ctx (.move dest source) span none
  return dest

/-- Copy the results of the iterator into the names of the loop. -/
def moveToNames (ctx : BuilderContext) (base : Register) (span : Span) :
    Nat → List ResolvedLocalName → Lower Unit
  | _, [] => pure ()
  | index, name :: rest => do
    let offset ← toU16 index span "generic for result 數超過 IR 限制"
    let source ← toU16 (base.toNat + offset.toNat) span "generic for register 超過 IR 限制"
    let dest ← bindingRegister ctx name.binding name.span
    emit ctx (.move dest source) name.span none
    moveToNames ctx base span (index + 1) rest

/-- Clear the names of the loop. -/
def clearNames (ctx : BuilderContext) (names : List ResolvedLocalName) : Lower Unit :=
  names.forM fun name => do
    let register ← bindingRegister ctx name.binding name.span
    emit ctx (.loadNil register 1) name.span none

/-- The four hidden values of a generic for: iterator, state, control and the value to be closed
    when the loop is left. -/
structure GenericForRegisters where
  iterator : Register
  state : Register
  control : Register
  closing : Register

/-- The registers of a generic for before the first round. -/
def lowerGenericForSetup (ctx : BuilderContext) (values : List ResolvedExpr)
    (closing : ResolvedGenericForClose) (closePath : ClosePath) (span : Span) :
    Lower GenericForRegisters := do
  stopIf (values = []) span "P04 generic for 缺少 iterator"
  let temporaryStart := (← get).nextRegister
  let initialBase ← lowerFixedValues ctx values 4 span
  let temporaryCount ← temporariesSince temporaryStart
  let iterator ← copyRegister ctx initialBase span
  let closingSource ← registerOffset initialBase 3 span
  let closingRegister ← bindingRegister ctx closing.binding closing.span
  let closingMarkerPc ← currentPc
  emit ctx (.move closingRegister closingSource) closing.span
    (some (closeDeclarationMarker closing.binding closingRegister closing.span closePath.fromScope))
  beginDebugScope ctx span
  activateDebugBinding ctx closing.binding closingMarkerPc (← currentPc) closing.span
  let state ← copyRegister ctx (← registerOffset initialBase 1 span) span
  let control ← copyRegister ctx (← registerOffset initialBase 2 span) span
  if temporaryCount ≠ 0 then
    emit ctx (.loadNil temporaryStart temporaryCount) span none
  return ⟨iterator, state, control, closingRegister⟩

/-- One call of the iterator and the test of its first result: the window and the jump that ends
    the loop. -/
def lowerGenericForCall (ctx : BuilderContext) (registers : GenericForRegisters) (names : Nat)
    (span : Span) : Lower (Register × Nat) := do
  let start ← currentPc
  let callBase ← copyRegister ctx registers.iterator span
  let _ ← copyRegister ctx registers.state span
  let _ ← copyRegister ctx registers.control span
  let resultCount ← toU16 names span "generic for result 數超過 IR 限制"
  stopIf (resultCount = 0) span "P04 generic for 缺少 control name"
  allocateMany ctx span (names - 3)
  recordWindow
    [⟨registers.iterator, start⟩, ⟨registers.state, start⟩, ⟨registers.control, start⟩]
    callBase start callBase
  emit ctx (.call callBase 2 (.fixed resultCount)) span none
  let nil ← nilRegister ctx span
  let nonNil ← allocate ctx span
  emit ctx (.binaryOp nonNil .notEqual callBase nil) span none
  let exitJump ← emitJumpIfFalsePlaceholder ctx nonNil span
  return (callBase, exitJump)

/-- `ResolvedStmt::GenericFor`; `body` lowers the block. -/
def lowerGenericFor (ctx : BuilderContext) (names : List ResolvedLocalName)
    (values : List ResolvedExpr) (closing : ResolvedGenericForClose) (body : Lower Unit)
    (closePath : ClosePath) (span : Span) : Lower Unit := do
  let registers ← lowerGenericForSetup ctx values closing closePath span
  let loopStart ← currentOffset span
  let (callBase, exitJump) ← lowerGenericForCall ctx registers names.length span
  emit ctx (.move registers.control callBase) span none
  beginDebugScope ctx span
  let initializedStart ← currentPc
  moveToNames ctx callBase span 0 names
  activateBindings ctx initializedStart (← currentPc) 0
    (names.map fun name => (name.binding, name.span))
  pushLoop
  body
  names.reverse.forM fun name => emitCapturedBindingClose ctx name.binding span
  clearNames ctx names.reverse
  emit ctx (.jump loopStart) span none
  endDebugScope span
  let normalExit ← emitCfgAnchor ctx span
  patchJump ctx exitJump normalExit
  emitTbcClose ctx closePath
  emit ctx (.loadNil registers.closing 1) span none
  endDebugScope span
  let breakExit ← emitCfgAnchor ctx span
  finishLoop ctx breakExit span

/-! ### Generations of temporaries -/

/-- The last element is a call. -/
def lastIsCall (expressions : List ResolvedExpr) : Bool :=
  expressions.getLast?.any ResolvedExpr.isCall

mutual

/-- `expression_may_emit_open_call`. -/
def expressionMayEmitOpenCall : ResolvedExpr → Bool
  | .call callee arguments _ =>
    lastIsCall arguments || expressionMayEmitOpenCall callee || anyMayEmitOpenCall arguments
  | .methodCall receiver _ arguments _ =>
    lastIsCall arguments || expressionMayEmitOpenCall receiver || anyMayEmitOpenCall arguments
  | .unary _ expression _ | .paren expression _ | .field expression _ _ =>
    expressionMayEmitOpenCall expression
  | .binary _ left right _ | .index left right _ =>
    expressionMayEmitOpenCall left || expressionMayEmitOpenCall right
  | .tableConstructor fields _ => fieldsMayEmitOpenCall fields
  | .function _ _ | .literal _ _ | .nil _ | .bool _ _ | .name _ _ _ | .vararg _ _ => false

/-- Some expression may emit an open call. -/
def anyMayEmitOpenCall : List ResolvedExpr → Bool
  | [] => false
  | expression :: rest => expressionMayEmitOpenCall expression || anyMayEmitOpenCall rest

/-- Some field may emit an open call. -/
def fieldsMayEmitOpenCall : List ResolvedTableField → Bool
  | [] => false
  | .array value _ _ :: rest =>
    (rest.isEmpty && value.isCall) || expressionMayEmitOpenCall value || fieldsMayEmitOpenCall rest
  | .named _ value _ _ :: rest => expressionMayEmitOpenCall value || fieldsMayEmitOpenCall rest
  | .indexed key value _ _ :: rest =>
    expressionMayEmitOpenCall key || expressionMayEmitOpenCall value || fieldsMayEmitOpenCall rest

end

/-- `statement_may_emit_open_call`: the expressions the statement evaluates itself. -/
def statementMayEmitOpenCall : ResolvedStmt → Bool
  | .ret values _ _ => lastIsCall values || anyMayEmitOpenCall values
  | .local _ _ values _ | .genericFor _ values _ _ _ _ => anyMayEmitOpenCall values
  | .assignment targets values _ => anyMayEmitOpenCall targets || anyMayEmitOpenCall values
  | .call call _ | .function call _ _ _ => expressionMayEmitOpenCall call
  | .if clauses _ _ => clauses.any fun clause => expressionMayEmitOpenCall clause.condition
  | .while condition _ _ | .repeat _ condition _ => expressionMayEmitOpenCall condition
  | .numericFor _ initial limit step _ _ =>
    expressionMayEmitOpenCall initial || expressionMayEmitOpenCall limit
      || step.any expressionMayEmitOpenCall
  | .global (.names _ values _ _) _ => anyMayEmitOpenCall values
  | .global _ _ | .empty _ | .break _ _ | .goto _ _ _ _ | .label _ _ _ | .do _ _
  | .localFunction _ _ _ => false

/-- Before a statement that may emit an open call, move beyond the temporaries of older
    generations of bindings. -/
def isolateBefore (statement : ResolvedStmt) : Lower Unit :=
  modify fun b =>
    let epoch := some b.debugBindingEpoch
    if b.openCallGenerationEpoch ≠ epoch ∧ b.openCallPreisolatedEpoch ≠ epoch
        ∧ statementMayEmitOpenCall statement = true then
      let floor := max b.openCallGenerationFloor b.peakRegister
      { b with
        openCallGenerationFloor := floor
        nextRegister := max b.nextRegister floor
        openCallPreisolatedEpoch := epoch }
    else b

/-- A call with all results. -/
def isOpenCall : Instruction → Bool
  | .call _ _ .all => true
  | _ => false

/-- Behind a statement, give its temporaries back, except those behind an open call. -/
def releaseAfter (epoch : UInt32) (temporaryStart : UInt16) (start : Nat) : Lower Unit :=
  modify fun b =>
    let b' :=
      if b.openCallGenerationEpoch ≠ some epoch
          ∧ (b.instructions.drop start).any fun entry => isOpenCall entry.instruction then
        { b with openCallGenerationFloor := b.peakRegister, openCallGenerationEpoch := some epoch }
      else b
    { b' with
      nextRegister := max (max temporaryStart b'.helperPrivateFloor) b'.openCallGenerationFloor }

/-- One statement of a block. -/
def lowerOneStatement (statement : ResolvedStmt) (lower : Lower Unit) : Lower Unit := do
  let epoch := (← get).debugBindingEpoch
  isolateBefore statement
  let temporaryStart := (← get).nextRegister
  let start ← currentPc
  lower
  releaseAfter epoch temporaryStart start

/-! ### Blocks and statements -/

/-- A label or an empty statement. -/
def ResolvedStmt.isVoid : ResolvedStmt → Bool
  | .empty _ | .label _ _ _ => true
  | _ => false

/-- A label. -/
def ResolvedStmt.isLabel : ResolvedStmt → Bool
  | .label _ _ _ => true
  | _ => false

/-- `terminal_label`: the first label behind which a block has only void statements.  It is
    outside the scope of the block's locals. -/
def terminalLabel (statements : List ResolvedStmt) : Option Nat :=
  let suffixStart := statements.length - (statements.reverse.takeWhile ResolvedStmt.isVoid).length
  ((statements.drop suffixStart).findIdx? ResolvedStmt.isLabel).map (suffixStart + ·)

/-- Leave the scope of a block: close its bindings and clear their registers. -/
def leaveScope (ctx : BuilderContext) (path : ClosePath) (span : Span) : Lower Unit := do
  emitClose ctx path
  emitExitedBindingCleanup ctx path
  endDebugScope span

/-- `Builder::lower_block_statements`; `statements` lowers the statements. -/
def lowerBlockStatements (ctx : BuilderContext) (block : ResolvedBlock) (statements : Lower Unit) :
    Lower Unit := do
  beginDebugScope ctx block.span
  enterLabelFrame block
  statements
  leaveLabelFrame block

mutual

/-- `Builder::lower_statement`. -/
def lowerStatement (ctx : BuilderContext) : ResolvedStmt → Lower Unit
  | .empty _ => pure ()
  | .label name _ span => defineLabel ctx name span
  | .ret values closePath span => lowerReturn ctx values closePath span
  | .local bindings _ values span => lowerLocal ctx bindings values span
  | .assignment targets values span => lowerAssignment ctx targets values span
  | .call call span => lowerStatementCall ctx call span
  | .break closePath span => lowerBreak ctx closePath span
  | .goto name _ closePath span => lowerGoto ctx name closePath span
  | .do body _ => lowerBlock ctx body
  | .if clauses elseBlock span => do
    let (endPatches, falseToJoin) ← match elseBlock with
      | some body => lowerClauses ctx span (some (body.span, lowerBlock ctx body)) clauses
      | none => lowerClauses ctx span none clauses
    let join ← emitCfgAnchor ctx span.lastByte
    patchJumps ctx join (endPatches ++ falseToJoin)
  | .while condition body span => lowerWhile ctx condition (lowerBlock ctx body) span
  | .repeat ⟨scope, statements, terminator, bodySpan, normalClosePath, errorClosePath⟩ condition
      span =>
    lowerRepeat ctx
      (lowerBlockStatements ctx
        ⟨scope, statements, terminator, bodySpan, normalClosePath, errorClosePath⟩
        (lowerStatements ctx (pure ()) none 0 statements))
      bodySpan normalClosePath condition span
  | .numericFor name initial limit step body span =>
    lowerNumericFor ctx name initial limit step (lowerBlock ctx body) span
  | .genericFor names values closing body closePath span =>
    lowerGenericFor ctx names values closing (lowerBlock ctx body) closePath span
  | .function name _ body span => do
    let closure ← lowerFunction ctx body
    storeTarget ctx name closure span
  | .localFunction name body span => lowerLocalFunction ctx name body span
  | .global declaration span => lowerGlobal ctx declaration span

/-- `Builder::lower_block`. -/
def lowerBlock (ctx : BuilderContext) : ResolvedBlock → Lower Unit
  | ⟨scope, statements, terminator, span, normalClosePath, errorClosePath⟩ => do
    let terminal := terminalLabel statements
    lowerBlockStatements ctx ⟨scope, statements, terminator, span, normalClosePath, errorClosePath⟩
      (lowerStatements ctx (leaveScope ctx normalClosePath span) terminal 0 statements)
    if terminal = none then
      leaveScope ctx normalClosePath span

/-- The statements from an index on; at the terminal label the scope is left. -/
def lowerStatements (ctx : BuilderContext) (leave : Lower Unit) (terminal : Option Nat) :
    Nat → List ResolvedStmt → Lower Unit
  | _, [] => pure ()
  | index, statement :: rest => do
    if terminal = some index then
      leave
    lowerOneStatement statement (lowerStatement ctx statement)
    lowerStatements ctx leave terminal (index + 1) rest

/-- The clauses of an `if`: the jumps to the join behind each body, and the jump of a last false
    condition without an `else`. -/
def lowerClauses (ctx : BuilderContext) (span : Span) (elseBlock : Option (Span × Lower Unit)) :
    List ResolvedIfClause → Lower (List Nat × List Nat)
  | [] => return ([], [])
  | ⟨condition, body⟩ :: rest => do
    let conditionRegister ← lowerExpr ctx condition
    let thenSpan : Span := ⟨condition.span.endByte, body.span.startByte⟩
    let falseJump ← emitJumpIfFalsePlaceholder ctx conditionRegister
      (if thenSpan.startByte < thenSpan.endByte then thenSpan else condition.span)
    lowerBlock ctx body
    let endJump ← emitJumpPlaceholder ctx span
    if rest.isEmpty then
      match elseBlock with
      | some (elseSpan, lowerElse) => do
        let elseEntry ← emitCfgAnchor ctx elseSpan
        patchJump ctx falseJump elseEntry
        lowerElse
        return ([endJump], [])
      | none => return ([endJump], [falseJump])
    else do
      patchJump ctx falseJump (← currentOffset span)
      let (endPatches, falseToJoin) ← lowerClauses ctx span elseBlock rest
      return (endJump :: endPatches, falseToJoin)

end

end RivetLua.Compiler
