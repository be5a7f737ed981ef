import RivetLua.Compiler.Builder

namespace RivetLua.Compiler

open RivetLua.Core
open RivetLua.Bytecode (Register ConstId ProtoId InstructionOffset ResultMode EnvironmentSource
  FrameLayout Instruction UnaryOperation BinaryOperation dynamicArguments)

/-!
# Compiler — lowering expressions

An expression is lowered to instructions that leave its value in a register.  A local is used in
place; every other value gets a register of its own.  A call copies its callee and arguments into
consecutive registers, the window of the call; a call or `...` in last position delivers all its
results behind the window.

* `lowerCallInputs` — evaluate the inputs of a call and fill its window;
* `lowerExpr` — one value;
* `lowerOpenExpressionAt` — all values, from a given register on.

`lower_expr_mode` of the source is called with `ResultMode::Fixed(1)` only, so `lowerExpr` has no
mode.
-/

/-! ### Operators, constants and names -/

/-- `map_unary`. -/
def mapUnary : UnaryOp → UnaryOperation
  | .negate => .negate
  | .not => .not
  | .length => .length
  | .bitNot => .bitNot

/-- `map_binary`. -/
def mapBinary : BinaryOp → BinaryOperation
  | .or => .or
  | .and => .and
  | .equal => .equal
  | .notEqual => .notEqual
  | .less => .less
  | .lessEqual => .lessEqual
  | .greater => .greater
  | .greaterEqual => .greaterEqual
  | .pipe => .pipe
  | .bitXor => .bitXor
  | .ampersand => .ampersand
  | .shiftLeft => .shiftLeft
  | .shiftRight => .shiftRight
  | .concat => .concat
  | .add => .add
  | .subtract => .subtract
  | .multiply => .multiply
  | .divide => .divide
  | .floorDivide => .floorDivide
  | .modulo => .modulo
  | .power => .power

/-- `reference_order_immediate`: a literal that the reference implementation keeps in the operand
    of a comparison. -/
def referenceOrderImmediate : ResolvedExpr → Bool
  | .literal (.integer (.integer value)) _ => decide (-127 ≤ value.toInt ∧ value.toInt ≤ 128)
  | .literal (.float (.float value)) _ =>
    value.isFinite && decide (value.toRat.den = 1 ∧ -127 ≤ value.toRat ∧ value.toRat ≤ 128)
  | _ => false

/-- Is this a literal? -/
def ResolvedExpr.isLiteral : ResolvedExpr → Bool
  | .literal _ _ => true
  | _ => false

/-- An index of a local by a literal. -/
def ResolvedExpr.isLocalIndexByLiteral : ResolvedExpr → Bool
  | .index (.name _ (.local _) _) (.literal _ _) _ => true
  | _ => false

/-- `Builder::is_open_expression`: an expression that may have any number of values. -/
def isOpenExpression : ResolvedExpr → Bool
  | .call _ _ _ | .methodCall _ _ _ _ | .vararg _ _ => true
  | _ => false

/-- `Builder::open_slots`: the registers the window of an open expression takes. -/
def openSlots (span : Span) : ResolvedExpr → Lower Nat
  | .call _ arguments _ => return arguments.length + 1
  | .methodCall _ _ arguments _ => return arguments.length + 2
  | .vararg _ _ => return 1
  | _ => stop span "只有 Call 或 Vararg 可使用 ResultMode::All"

/-- `Builder::nil_register`. -/
def nilRegister (ctx : BuilderContext) (span : Span) : Lower Register := do
  let register ← allocate ctx span
  emit ctx (.loadNil register 1) span none
  return register

/-- `Builder::constant_register`. -/
def constantRegister (ctx : BuilderContext) (value : IrConstant) (span : Span) :
    Lower Register := do
  let dest ← allocate ctx span
  let id ← constant value span
  emit ctx (.loadConst dest id) span none
  return dest

/-- `Builder::name_constant`. -/
def nameConstant (ctx : BuilderContext) (name : List UInt8) (span : Span) : Lower Register :=
  constantRegister ctx (.name name) span

/-- `upvalue_origin`: follow an upvalue to the binding it captures.  The chain of parents is at
    most as long as the list of functions. -/
def upvalueOrigin (functions : List ResolvedFunction) :
    Nat → ResolvedFunction → Nat → Option BindingId
  | 0, _, _ => none
  | depth + 1, function, index =>
    match function.upvalues[index]? with
    | none => none
    | some (.parentLocal binding) => some binding
    | some (.parentUpvalue upvalue) =>
      match functions.find? fun candidate => decide (some candidate.id = function.parent) with
      | none => none
      | some parent => upvalueOrigin functions depth parent upvalue.index.toNat

/-- The binding behind an upvalue of the function under construction. -/
def BuilderContext.upvalueOrigin (ctx : BuilderContext) (index : Nat) : Option BindingId :=
  Compiler.upvalueOrigin ctx.functions (ctx.functions.length + 1) ctx.function index

/-- `Builder::load_upvalue`. -/
def loadUpvalue (ctx : BuilderContext) (upvalue : UpvalueId) (span : Span) : Lower Register := do
  let dest ← allocate ctx span
  let id ← toU16 upvalue.index.toNat span "upvalue ID 超過 IR 限制"
  emit ctx (.getUpvalue dest id) span none
  return dest

/-- `Builder::binding_value`: the register of an own binding, or a copy of an upvalue. -/
def bindingValue (ctx : BuilderContext) (binding : BindingId) (span : Span) : Lower Register :=
  if binding.function = ctx.function.id then bindingRegister ctx binding span
  else do
    let upvalue ← orStop
      ((List.range ctx.function.upvalues.length).find? fun index =>
        decide (ctx.upvalueOrigin index = some binding))
      span "P04 binding 未以目前 function upvalue 提供"
    let id ← toU32 upvalue span "upvalue ID 超過 IR 限制"
    loadUpvalue ctx ⟨id⟩ span

/-- `GetTable` into a fresh register. -/
def getTable (ctx : BuilderContext) (table key : Register) (span : Span) : Lower Register := do
  let dest ← allocate ctx span
  emit ctx (.getTable dest table key) span none
  return dest

/-- `Builder::lower_name`. -/
def lowerName (ctx : BuilderContext) (name : List UInt8) (resolution : ResolvedName)
    (span : Span) : Lower Register :=
  match resolution with
  | .local binding => bindingRegister ctx binding span
  | .upvalue upvalue => loadUpvalue ctx upvalue span
  | .envField env _ => do
    let key ← nameConstant ctx name span
    markLastNonCounted ctx span
    let envStart ← currentPc
    let table ← bindingValue ctx env span
    if envStart < (← currentPc) then
      markLastNonCounted ctx span
    getTable ctx table key span
  | .global _ => do
    let key ← nameConstant ctx name span
    markLastNonCounted ctx span
    getTable ctx ctx.globalEnvironment key span

/-- `proto_for`. -/
def protoFor (prototypes : List (FunctionId × ProtoId)) (function : FunctionId) (span : Span) :
    Lower ProtoId :=
  orStop ((prototypes.find? fun entry => decide (entry.1 = function)).map Prod.snd) span
    "P04 FunctionId 無 prototype map"

/-- The last byte of a span. -/
def Span.lastByte (span : Span) : Span := ⟨span.endByte - 1, span.endByte⟩

/-- `Builder::lower_function`. -/
def lowerFunction (ctx : BuilderContext) (body : ResolvedFunctionBody) : Lower Register := do
  let dest ← allocate ctx body.span
  let proto ← protoFor ctx.prototypes body.function body.span
  emit ctx (.closure dest proto) body.span.lastByte none
  return dest

/-! ### Call windows -/

/-- An input that has just been evaluated. -/
def inputOf (register : Register) : Lower Input := fun b => .ok (⟨register, b.pc⟩, b)

/-- Copy inputs into the registers from `base + index` on. -/
def moveInputs (ctx : BuilderContext) (base : Register) (span : Span) :
    Nat → List Input → Lower Unit
  | _, [] => pure ()
  | index, input :: rest => do
    let dest ← registerOffset base index span
    emit ctx (.move dest input.register) span none
    moveInputs ctx base span (index + 1) rest

/-- `Builder::move_call_inputs_at`. -/
def moveCallInputsAt (ctx : BuilderContext) (base : Register) (callee : Input)
    (arguments : List Input) (span : Span) : Lower UInt16 := do
  let argCount ← toU16 arguments.length span "call arg 數超過 IR 限制"
  emit ctx (.move base callee.register) span none
  moveInputs ctx base span 1 arguments
  return argCount

/-- `Builder::prepare_call_registers`. -/
def prepareCallRegisters (ctx : BuilderContext) (callee : Input) (arguments : List Input)
    (span : Span) : Lower (Register × UInt16) := do
  let argCount ← toU16 arguments.length span "call arg 數超過 IR 限制"
  let base ← reserveRegisters ctx (arguments.length + 1) span
  emit ctx (.move base callee.register) span none
  moveInputs ctx base span 1 arguments
  return (base, argCount)

/-- The end of `lower_call_inputs` for a call whose last argument is not open. -/
def fillFixedWindow (ctx : BuilderContext) (callee : Input) (values : List Input)
    (fixedBase : Option Register) (span : Span) : Lower (Register × UInt16) :=
  match fixedBase with
  | some base => do
    stopIf (ctx.limits.maxRegisters.toNat < base.toNat + (values.length + 1)) span
      "call 引數 register 數超過 IR 限制"
    allocateUpTo ctx (base.toNat + (values.length + 1)) span
    let argCount ← moveCallInputsAt ctx base callee values span
    return (base, argCount)
  | none => prepareCallRegisters ctx callee values span

/-- The registers of a window, as pending values. -/
def pushWindow (ctx : BuilderContext) (base : Register) (span : Span) : Nat → Nat → Lower Unit
  | _, 0 => pure ()
  | offset, count + 1 => do
    let copy ← registerOffset base offset span
    let _ ← pushPendingExpression ctx copy span
    pushWindow ctx base span (offset + 1) count

/-- The end of `lower_call_inputs` for a call whose last argument is open: the fixed inputs are
    copied first, then the last argument delivers its results behind them. -/
def fillOpenWindow (ctx : BuilderContext) (callee : Input) (values : List Input)
    (fixedBase : Option Register) (pendingStart : Nat) (openLast : Register → Lower Unit)
    (span : Span) : Lower (Register × UInt16) := do
  let slots := values.length + 2
  let base ← match fixedBase with
    | some base => do
      allocateUpTo ctx (base.toNat + slots) span
      pure base
    | none => reserveRegisters ctx slots span
  emit ctx (.move base callee.register) span none
  moveInputs ctx base span 1 values
  truncatePending pendingStart
  pushWindow ctx base span 0 (values.length + 1)
  let producerBase ← registerOffset base (values.length + 1) span
  openLast producerBase
  return (base, dynamicArguments)

/-- `Builder::lower_call_inputs`.  `fixedArguments` evaluates the arguments before an open last
    one, `openLast` delivers that one. -/
def lowerCallInputs (ctx : BuilderContext) (callee : Input) (leading : List Input)
    (fixedArguments : Lower (List Input)) (openLast : Option (Register → Lower Unit))
    (fixedBase : Option Register) (span : Span) : Lower (Register × UInt16) := do
  let start ← currentPc
  let floor := fixedBase.getD (← get).nextRegister
  let pendingStart := (← get).pendingExpressionValues.length
  pushPendingExpressions ctx (callee.register :: leading.map Input.register) span
  let values := leading ++ (← fixedArguments)
  let result ← match openLast with
    | none => fillFixedWindow ctx callee values fixedBase span
    | some openLast => fillOpenWindow ctx callee values fixedBase pendingStart openLast span
  recordWindow (callee :: values) result.1 start floor
  truncatePending pendingStart
  return result

/-- The method of a receiver. -/
def lookupMethod (ctx : BuilderContext) (receiver : Register) (method : List UInt8)
    (span : Span) : Lower Input := do
  let key ← nameConstant ctx method span
  let callee ← getTable ctx receiver key span
  inputOf callee

/-- The last argument is open. -/
def openLast? (arguments : List ResolvedExpr) : Bool :=
  arguments.getLast?.any isOpenExpression

/-! ### Table constructors -/

/-- The constant of an array index. -/
def arrayIndexConstant (index : Nat) : IrConstant := .literal (.integer (.integer (.ofNat index)))

/-- `Builder::lower_open_array_field`: the list writer is called with the table, the first index,
    a skip count of zero and the open values. -/
def lowerOpenArrayField (ctx : BuilderContext) (table : Register) (first : Nat)
    (openLast : Register → Lower Unit) (span : Span) : Lower Unit := do
  let base ← reserveRegisters ctx 5 span
  let sourceUpvalue ← toU16 ctx.function.upvalues.length span
    "native RawListWrite upvalue 超出限制"
  let firstId ← constant (arrayIndexConstant first) span
  let skipId ← constant (arrayIndexConstant 0) span
  emit ctx (.getUpvalue base sourceUpvalue) span none
  emit ctx (.move (← registerOffset base 1 span) table) span none
  emit ctx (.loadConst (← registerOffset base 2 span) firstId) span none
  emit ctx (.loadConst (← registerOffset base 3 span) skipId) span none
  openLast (← registerOffset base 4 span)
  let callPc ← toU32 (← get).pc span "native RawListWrite PC 超出限制"
  let suppressed := (← get).suppressDebugTemporaries
  modify fun b => { b with suppressDebugTemporaries := true }
  emit ctx (.call base dynamicArguments (.fixed 0)) span none
  modify fun b => { b with suppressDebugTemporaries := suppressed }
  emit ctx (.loadNil base 1) span none
  let floor ← registerOffset base 4 span
  modify fun b =>
    { b with
      nativeListWrites := b.nativeListWrites ++ [⟨callPc, base⟩]
      helperPrivateFloor := max b.helperPrivateFloor floor }

/-! ### Expressions -/

/-- The span between two operands. -/
def operatorSpan (left right : ResolvedExpr) : Span := ⟨left.span.endByte, right.span.startByte⟩

/-- Comparisons of order. -/
def BinaryOp.isOrder : BinaryOp → Bool
  | .less | .lessEqual | .greater | .greaterEqual => true
  | _ => false

/-- `and` and `or`. -/
def BinaryOp.isLogical : BinaryOp → Bool
  | .and | .or => true
  | _ => false

/-- The left operand, with the marks of the reference implementation. -/
def finishLeftOperand (ctx : BuilderContext) (op : BinaryOp) (left right : ResolvedExpr)
    (span : Span) (leftStart : Nat) : Lower Unit := do
  if op.isOrder && !right.isLiteral && referenceOrderImmediate left then
    markLastNonCounted ctx span
  let between := operatorSpan left right
  if !op.isLogical && decide (between.startByte < between.endByte)
      && left.isLocalIndexByLiteral then
    respanFrom leftStart fun _ => between

/-- `and` and `or` behind their left operand. -/
def lowerLogical (ctx : BuilderContext) (op : BinaryOp) (left : Register) (right : Lower Register)
    (span : Span) : Lower Register := do
  let dest ← allocate ctx span
  emit ctx (.move dest left) span none
  let condition ← if op = .and then pure left else do
    let inverted ← allocate ctx span
    emit ctx (.unaryOp inverted .not left) span none
    pure inverted
  let keepLeft ← emitJumpIfFalsePlaceholder ctx condition span
  let value ← right
  emit ctx (.move dest value) span none
  patchJump ctx keepLeft (← currentOffset span)
  return dest

/-- A binary operation behind its operands. -/
def finishBinary (ctx : BuilderContext) (op : BinaryOp) (left right : ResolvedExpr)
    (leftValue rightValue : Register) (span : Span) : Lower Register := do
  if op.isOrder && !left.isLiteral && referenceOrderImmediate right then
    markLastNonCounted ctx span
  let dest ← allocate ctx span
  let between := operatorSpan left right
  emit ctx (.binaryOp dest (mapBinary op) leftValue rightValue)
    (if between.startByte < between.endByte then between else span) none
  return dest

mutual

/-- `Builder::lower_expr`. -/
def lowerExpr (ctx : BuilderContext) : ResolvedExpr → Lower Register
  | .literal literal span => constantRegister ctx (.literal literal) span
  | .nil span => nilRegister ctx span
  | .bool value span => constantRegister ctx (.boolean value) span
  | .name name resolution span => lowerName ctx name resolution span
  | .vararg _ span => do
    let base ← reserveRegisters ctx 1 span
    emit ctx (.vararg base (.fixed 1)) span none
    return base
  | .unary op expression span => do
    let src ← lowerExpr ctx expression
    let dest ← allocate ctx span
    emit ctx (.unaryOp dest (mapUnary op) src) span none
    return dest
  | .binary op left right span => do
    let leftStart ← currentPc
    let leftValue ← lowerExpr ctx left
    finishLeftOperand ctx op left right span leftStart
    if op.isLogical then
      lowerLogical ctx op leftValue (lowerExpr ctx right) span
    else do
      let rightValue ← withPendingExpression ctx leftValue span (lowerExpr ctx right)
      finishBinary ctx op left right leftValue rightValue span
  | .paren expression _ => lowerExpr ctx expression
  | .index base index span => do
    let table ← lowerExpr ctx base
    let key ← withPendingExpression ctx table span (lowerExpr ctx index)
    getTable ctx table key span
  | .field base name span => do
    let table ← lowerExpr ctx base
    let key ← nameConstant ctx name span
    markLastNonCounted ctx span
    getTable ctx table key span
  | .call callee arguments span => do
    let calleeInput ← inputOf (← lowerExpr ctx callee)
    let (base, argCount) ← lowerCallInputs ctx calleeInput [] (lowerFixedArguments ctx span arguments)
      (if openLast? arguments then some (lowerOpenLast ctx span arguments) else none) none span
    emit ctx (.call base argCount (.fixed 1)) span none
    return base
  | .methodCall receiver method arguments span => do
    let receiverInput ← inputOf (← lowerExpr ctx receiver)
    let callee ← lookupMethod ctx receiverInput.register method span
    let (base, argCount) ← lowerCallInputs ctx callee [receiverInput]
      (lowerFixedArguments ctx span arguments)
      (if openLast? arguments then some (lowerOpenLast ctx span arguments) else none) none span
    emit ctx (.call base argCount (.fixed 1)) span none
    return base
  | .function body _ => lowerFunction ctx body
  | .tableConstructor fields span => do
    let table ← allocate ctx span
    emit ctx (.newTable table) span none
    lowerFields ctx table 1 fields
    return table

/-- The arguments before an open last one, in order. -/
def lowerFixedArguments (ctx : BuilderContext) (span : Span) :
    List ResolvedExpr → Lower (List Input)
  | [] => return []
  | argument :: rest =>
    if rest.isEmpty && isOpenExpression argument then return []
    else do
      let value ← inputOf (← lowerExpr ctx argument)
      let _ ← pushPendingExpression ctx value.register span
      let values ← lowerFixedArguments ctx span rest
      return value :: values

/-- The open last argument, from a register on. -/
def lowerOpenLast (ctx : BuilderContext) (span : Span) :
    List ResolvedExpr → Register → Lower Unit
  | [], _ => pure ()
  | argument :: rest, base =>
    if rest.isEmpty then lowerOpenExpressionAt ctx argument base .all span
    else lowerOpenLast ctx span rest base

/-- `Builder::lower_open_expression_at`. -/
def lowerOpenExpressionAt (ctx : BuilderContext) :
    ResolvedExpr → Register → ResultMode → Span → Lower Unit
  | .call callee arguments _, base, mode, span => do
    let calleeInput ← inputOf (← lowerExpr ctx callee)
    let (_, argCount) ← lowerCallInputs ctx calleeInput [] (lowerFixedArguments ctx span arguments)
      (if openLast? arguments then some (lowerOpenLast ctx span arguments) else none)
      (some base) span
    markDynamicTop base
    emit ctx (.call base argCount mode) span none
  | .methodCall receiver method arguments _, base, mode, span => do
    let receiverInput ← inputOf (← lowerExpr ctx receiver)
    let callee ← lookupMethod ctx receiverInput.register method span
    let (_, argCount) ← lowerCallInputs ctx callee [receiverInput]
      (lowerFixedArguments ctx span arguments)
      (if openLast? arguments then some (lowerOpenLast ctx span arguments) else none)
      (some base) span
    markDynamicTop base
    emit ctx (.call base argCount mode) span none
  | .vararg _ _, base, mode, span => do
    markDynamicTop base
    emit ctx (.vararg base mode) span none
  | _, _, _, span => stop span "只有 Call、MethodCall 或 Vararg 可使用開放結果"

/-- The fields of a table constructor; array fields are numbered from `arrayIndex` on. -/
def lowerFields (ctx : BuilderContext) (table : Register) :
    Nat → List ResolvedTableField → Lower Unit
  | _, [] => pure ()
  | arrayIndex, .array value _ span :: rest =>
    if rest.isEmpty && isOpenExpression value then
      lowerOpenArrayField ctx table arrayIndex
        (fun base => lowerOpenExpressionAt ctx value base .all span) span
    else do
      let key ← constantRegister ctx (arrayIndexConstant arrayIndex) span
      stopIf (2 ^ 63 ≤ arrayIndex + 1) span "array field index 超過 IR 限制"
      let register ← lowerExpr ctx value
      emit ctx (.setTable table key register) span none
      lowerFields ctx table (arrayIndex + 1) rest
  | arrayIndex, .named name value _ span :: rest => do
    let key ← nameConstant ctx name span
    let register ← lowerExpr ctx value
    emit ctx (.setTable table key register) span none
    lowerFields ctx table arrayIndex rest
  | arrayIndex, .indexed key value _ span :: rest => do
    let keyRegister ← lowerExpr ctx key
    let register ← lowerExpr ctx value
    emit ctx (.setTable table keyRegister register) span none
    lowerFields ctx table arrayIndex rest

end

end RivetLua.Compiler
