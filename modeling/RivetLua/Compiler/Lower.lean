import RivetLua.Lib.Check
import RivetLua.Compiler.LowerStmt

namespace RivetLua.Compiler

open RivetLua.Core
open RivetLua.Bytecode (Register ConstId ProtoId InstructionOffset ResultMode EnvironmentSource
  FrameLayout Instruction UnaryOperation BinaryOperation dynamicArguments)

/-!
# Compiler — lowering a function

A function of a resolved module becomes a prototype.

* `newContext`, `emptyBuilder` — the frame of a function: register 0 for returns, one register for
  each binding, and the environment;
* `finishCode`, `finishPrototype` — the implicit return, the checks on the finished code and the
  prototype;
* `lowerBody` — all of it.

The native debug sidecar that the source's `finish` also assembles is left out: nothing here reads
it.
-/

/-- `IrPrototype`, without the native debug sidecar. -/
structure IrPrototype where
  id : ProtoId
  function : FunctionId
  parent : Option ProtoId
  span : Span
  registerCount : UInt16
  parameterCount : UInt16
  isVariadic : Bool
  namedVararg : Option (BindingId × Register)
  frame : FrameLayout
  globalEnvironment : Register
  globalEnvironmentBinding : BindingId
  bindingRegisters : List (BindingId × Register)
  constants : List IrConstant
  upvalues : List IrUpvalue
  instructions : List IrInstruction
  closePaths : List IrClosePath
  nativeListWriteUpvalue : Option RivetLua.Bytecode.UpvalueId
  nativeListWrites : List IrNativeListWrite
  deriving DecidableEq

/-- The chunk itself. -/
def rootFunction : FunctionId := ⟨0⟩

/-! ### The frame of a function -/

/-- A result that does not depend on a builder. -/
abbrev Checked := Except IrError

/-- `ok_or_else`. -/
def orFail {α : Type} (value : Option α) (span : Span) (message : String) : Checked α :=
  match value with
  | some a => .ok a
  | none => .error ⟨span, message⟩

/-- Fail if a condition holds. -/
def failIf (c : Prop) [Decidable c] (span : Span) (message : String) : Checked Unit :=
  if c then .error ⟨span, message⟩ else .ok ()

/-- `u16::try_from`. -/
def checkU16 (n : Nat) (span : Span) (message : String) : Checked UInt16 :=
  orFail (if n < 2 ^ 16 then some (UInt16.ofNat n) else none) span message

/-- The bindings of a function from register 1 on. -/
def assignRegisters (limits : IrLimits) :
    Nat → List BindingMeta → Checked (List (BindingId × Register))
  | _, [] => .ok []
  | index, binding :: rest => do
    let register ← checkU16 (index + 1) binding.span "register 數超過 IR 限制"
    failIf (limits.maxRegisters ≤ register) binding.span "register 數超過 IR 限制"
    let others ← assignRegisters limits (index + 1) rest
    .ok ((binding.id, register) :: others)

/-- The environment binding of the chunk. -/
def rootEnvironment (functions : List ResolvedFunction) : Option BindingId :=
  (functions.find? fun candidate => decide (candidate.id = rootFunction)).bind fun root =>
    (root.bindings.find? fun binding => decide (binding.kind = .environment)).map BindingMeta.id

/-- `environment_slot`. -/
def environmentSlot (function : ResolvedFunction) (environment : BindingId) (span : Span) :
    Checked Register :=
  if function.id = rootFunction then
    match function.bindings.findIdx? fun binding => decide (binding.id = environment) with
    | some index => checkU16 (index + 1) span "function binding index 已受 P04 limit 限制"
    | none => .error ⟨span, "root _ENV binding 未配置 register"⟩
  else checkU16 (function.bindings.length + 1) span "register 數超過 IR 限制"

/-- `proto_for`, without a builder. -/
def prototypeOf (prototypes : List (FunctionId × ProtoId)) (function : FunctionId) (span : Span) :
    Checked ProtoId :=
  orFail ((prototypes.find? fun entry => decide (entry.1 = function)).map Prod.snd) span
    "P04 FunctionId 無 prototype map"

/-- Where a function takes its environment from. -/
def environmentSourceOf (function : ResolvedFunction) (functions : List ResolvedFunction)
    (prototypes : List (FunctionId × ProtoId)) (environment : BindingId) (span : Span) :
    Checked EnvironmentSource :=
  if function.id = rootFunction then .ok .rootExternal
  else
    match function.upvalues.zipIdx.find? fun entry =>
        decide (upvalueOrigin functions (functions.length + 1) function entry.2 = some environment)
      with
    | some (source, index) => do
      let upvalue ← checkU16 index span "upvalue ID 超過 IR 限制"
      match source with
      | .parentLocal _ => .ok (.parentLocal upvalue)
      | .parentUpvalue _ => .ok (.parentUpvalue upvalue)
    | none => do
      let parent ← orFail
        (functions.find? fun candidate => decide (some candidate.id = function.parent)) span
        "P04 function 缺少 parent environment source"
      let proto ← prototypeOf prototypes parent.id span
      let register ← environmentSlot parent environment span
      .ok (.parentFrame proto register)

/-- A function takes its environment from the frame of its parent exactly if none of its upvalues
    captures the `_ENV` of the chunk. -/
theorem environmentSourceOf_parentFrame_iff {function : ResolvedFunction}
    {functions : List ResolvedFunction} {prototypes : List (FunctionId × ProtoId)}
    {environment : BindingId} {span : Span} {source : EnvironmentSource}
    (hroot : function.id ≠ rootFunction)
    (h : environmentSourceOf function functions prototypes environment span = .ok source) :
    (∃ parent register, source = .parentFrame parent register)
      ↔ ∀ index, upvalueOrigin functions (functions.length + 1) function index
        ≠ some environment := by
  unfold environmentSourceOf at h
  rw [if_neg hroot] at h
  split at h
  · rename_i upvalue index hfind
    have horigin := List.find?_some hfind
    simp only [decide_eq_true_eq] at horigin
    have hsource : ¬ ∃ parent register, source = .parentFrame parent register := by
      rintro ⟨parent, register, rfl⟩
      rcases hcheck : checkU16 index span "upvalue ID 超過 IR 限制" with e | n
      · simp [hcheck, bind, Except.bind] at h
      · cases upvalue <;> simp [hcheck, bind, Except.bind] at h
    exact ⟨fun hframe => absurd hframe hsource, fun hnone => absurd horigin (hnone index)⟩
  · rename_i hfind
    have hnone : ∀ index, upvalueOrigin functions (functions.length + 1) function index
        ≠ some environment := by
      intro index horigin
      rcases hget : function.upvalues[index]? with _ | upvalue
      · simp [upvalueOrigin, hget] at horigin
      · have hmem : (upvalue, index) ∈ function.upvalues.zipIdx := by
          rw [List.mem_zipIdx_iff_getElem?]
          exact hget
        exact absurd (decide_eq_true horigin) (List.find?_eq_none.mp hfind _ hmem)
    simp only [Check.bind_eq_ok] at h
    obtain ⟨parent, -, proto, -, register, -, ⟨⟩⟩ := h
    exact ⟨fun _ => hnone, fun _ => ⟨_, _, rfl⟩⟩

/-- The context of a function: its frame. -/
def newContext (function : ResolvedFunction) (id : ProtoId) (parent : Option ProtoId) (span : Span)
    (limits : IrLimits) (prototypes : List (FunctionId × ProtoId))
    (functions : List ResolvedFunction) (functionBody : Option ResolvedFunctionBody) :
    Checked BuilderContext := do
  failIf (limits.maxUpvaluesPerPrototype < function.upvalues.length) function.span
    "upvalue 數超過 IR 限制"
  let bindingRegisters ← assignRegisters limits 0 function.bindings
  let environment ← orFail (rootEnvironment functions) span "P04 metadata 缺少 root _ENV binding"
  let globalEnvironment ←
    if function.id = rootFunction then
      orFail ((bindingRegisters.find? fun entry => decide (entry.1 = environment)).map Prod.snd)
        span "root _ENV binding 未配置 register"
    else checkU16 (bindingRegisters.length + 1) span "register 數超過 IR 限制"
  let initialTop ←
    if function.id = rootFunction then
      checkU16 (bindingRegisters.length + 1) span "register 數超過 IR 限制"
    else checkU16 (globalEnvironment.toNat + 1) span "register 數超過 IR 限制"
  failIf (limits.maxRegisters < initialTop) span "register 數超過 IR 限制"
  let environmentSource ← environmentSourceOf function functions prototypes environment span
  .ok
    { function := function
      id := id
      parent := parent
      span := span
      limits := limits
      prototypes := prototypes
      functions := functions
      functionBody := functionBody
      globalEnvironment := globalEnvironment
      globalEnvironmentBinding := environment
      environmentSource := environmentSource
      initialTop := initialTop
      bindingRegisters := bindingRegisters }

/-- The builder of an empty function. -/
def emptyBuilder (ctx : BuilderContext) : Builder where
  dynamicTop := ctx.initialTop
  nextRegister := ctx.initialTop
  peakRegister := ctx.initialTop
  helperPrivateFloor := ctx.initialTop
  openCallGenerationFloor := ctx.initialTop

/-- The parameters of a function are visible from the start. -/
def activateParameters (ctx : BuilderContext) : Lower Unit :=
  match ctx.functionBody with
  | none => pure ()
  | some body => do
    body.parameters.forM fun parameter =>
      activateDebugBinding ctx parameter.binding 0 0 parameter.span
    match body.vararg.bind ResolvedVararg.tableBinding with
    | some binding => activateDebugBinding ctx binding 0 0 body.span
    | none => pure ()

/-! ### The end of a function -/

/-- `Builder::validate_environment_source`. -/
def validateEnvironmentSource (ctx : BuilderContext) : Checked Unit :=
  match ctx.environmentSource with
  | .rootExternal =>
    failIf (ctx.function.id ≠ rootFunction ∨ ctx.parent ≠ none) ctx.span
      "只有 root prototype 可以使用外部 environment source"
  | .parentFrame parent register => do
    let parentFunction ← orFail
      (ctx.functions.find? fun candidate => decide (some candidate.id = ctx.function.parent))
      ctx.span "environment source 缺少 parent function"
    let expectedParent ← prototypeOf ctx.prototypes parentFunction.id ctx.span
    let expectedRegister ← environmentSlot parentFunction ctx.globalEnvironmentBinding ctx.span
    failIf (parent ≠ expectedParent ∨ register ≠ expectedRegister) ctx.span
      "ParentFrame environment source 與 P04 parent metadata 不符"
  | .parentLocal upvalue => do
    let source ← orFail ctx.function.upvalues[upvalue.toNat]? ctx.span
      "environment source 的 upvalue 不存在"
    let kindMatches := match source with
      | .parentLocal _ => true
      | .parentUpvalue _ => false
    failIf (kindMatches = false
        ∨ ctx.upvalueOrigin upvalue.toNat ≠ some ctx.globalEnvironmentBinding) ctx.span
      "environment source 與 P04 upvalue metadata 不符"
  | .parentUpvalue upvalue => do
    let source ← orFail ctx.function.upvalues[upvalue.toNat]? ctx.span
      "environment source 的 upvalue 不存在"
    let kindMatches := match source with
      | .parentLocal _ => false
      | .parentUpvalue _ => true
    failIf (kindMatches = false
        ∨ ctx.upvalueOrigin upvalue.toNat ≠ some ctx.globalEnvironmentBinding) ctx.span
      "environment source 與 P04 upvalue metadata 不符"

/-- An instruction that leaves an open result, with its base. -/
def openBase : Instruction → Option Register
  | .call base _ .all | .vararg base .all => some base
  | _ => none

/-- A call that takes its arguments up to the open result, with its base. -/
def dynamicBase : Instruction → Option Register
  | .call base argCount _ | .tailCall base argCount _ =>
    if argCount = dynamicArguments then some base else none
  | _ => none

/-- Is this a close? -/
def isClose : Instruction → Bool
  | .close _ _ => true
  | _ => false

/-- A return of all results from `base` on, at or below `producer`. -/
def isOpenReturn (producer : Register) : Instruction → Bool
  | .ret base .all => decide (base ≤ producer)
  | _ => false

/-- The open results of the code from here on: a dynamic call has its producer right before it,
    and an open result goes to a return behind closes or to a dynamic call right behind it. -/
def validateOpenResultsFrom : Option Instruction → List IrInstruction → Checked Unit
  | _, [] => .ok ()
  | previous, entry :: rest => do
    match dynamicBase entry.instruction with
    | some base =>
      failIf (¬ ∃ producer ∈ previous.bind openBase, base < producer) entry.span
        "動態 call 引數缺少相鄰的 open producer"
    | none => .ok ()
    match openBase entry.instruction with
    | some producer =>
      let openReturn := ((rest.dropWhile fun next => isClose next.instruction).head?).any
        fun next => isOpenReturn producer next.instruction
      let dynamicCall := rest.head?.any fun next =>
        (dynamicBase next.instruction).any fun base => decide (base < producer)
      failIf (openReturn = false ∧ dynamicCall = false) entry.span
        "ResultMode::All 未立即流向 open return consumer"
    | none => .ok ()
    validateOpenResultsFrom (some entry.instruction) rest

/-- Jumps stay inside the code. -/
def validateJumps (length : Nat) : List IrInstruction → Checked Unit
  | [] => .ok ()
  | entry :: rest => do
    match entry.instruction with
    | .jump target | .jumpIfFalse _ target =>
      failIf (length ≤ target.toNat) entry.span "CFG jump target 不在同一 prototype 指令範圍"
    | _ => .ok ()
    validateJumps length rest

/-- A call statement clears all temporaries behind it, once their number is known. -/
def patchCleanups (ctx : BuilderContext) (registerCount : UInt16) :
    List (Nat × Register) → List IrInstruction → Checked (List IrInstruction)
  | [], instructions => .ok instructions
  | (pc, start) :: rest, instructions => do
    failIf (registerCount ≤ start) ctx.span "call statement cleanup 範圍無效"
    let entry ← orFail instructions[pc]? ctx.span "call statement cleanup PC 無效"
    match entry.instruction with
    | .loadNil current _ => do
      failIf (current ≠ start) entry.span "call statement cleanup 指令無效"
      patchCleanups ctx registerCount rest
        (instructions.set pc
          { entry with instruction := .loadNil start (registerCount - start) })
    | _ => .error ⟨entry.span, "call statement cleanup 指令無效"⟩

/-- The upvalues of a prototype. -/
def upvaluesFrom (span : Span) : Nat → List UpvalueSource → Checked (List IrUpvalue)
  | _, [] => .ok []
  | index, source :: rest => do
    let id ← checkU16 index span "upvalue ID 超過 IR 限制"
    let others ← upvaluesFrom span (index + 1) rest
    .ok (⟨id, source⟩ :: others)

/-- Control leaves the function at its last instruction anyway. -/
def endsWithExit (instructions : List IrInstruction) : Bool :=
  match instructions.getLast?.map IrInstruction.instruction with
  | some (.ret _ _) | some (.tailCall _ _ _) | some (.jump _) => true
  | _ => false

/-- The implicit return at the end of a body. -/
def emitImplicitReturn (ctx : BuilderContext) (body : ResolvedBlock) : Lower Unit := do
  if body.normalClosePath.targetScope ≠ none then
    if body.errorClosePath.bindings ≠ [] then
      emitClose ctx
        { kind := .normal
          span := body.span
          fromScope := body.scope
          targetScope := none
          bindings := body.errorClosePath.bindings
          exitedBindings := body.errorClosePath.exitedBindings }
    else if body.errorClosePath.exitedBindings ≠ [] then
      emitUpvalueClose ctx body.errorClosePath
  let returnSpan := match ctx.functionBody with
    | none => ((body.statements.getLast?.map ResolvedStmt.span).getD body.span).lastByte
    | some _ => ctx.function.span.lastByte
  emit ctx (.ret 0 (.fixed 0)) returnSpan none

/-- The part of `finish` that emits. -/
def finishCode (ctx : BuilderContext) (body : ResolvedBlock) : Lower Unit := do
  let b ← get
  stopIf (b.labelFrames ≠ [] ∨ b.pendingGotos ≠ [] ∨ b.loops ≠ [] ∨ b.debugScopes ≠ []) ctx.span
    "CFG lowering 有未完成的 control-flow patch"
  if endsWithExit b.instructions = false then
    emitImplicitReturn ctx body

/-- The register of a named vararg. -/
def namedVarargOf (ctx : BuilderContext) : Option (BindingId × Register) :=
  (ctx.functionBody.bind fun body => body.vararg.bind ResolvedVararg.tableBinding).bind
    fun binding => (ctx.bindingRegisters.find? fun entry => decide (entry.1 = binding)).map
      fun entry => (binding, entry.2)

/-- The part of `finish` that checks and assembles the prototype. -/
def finishPrototype (ctx : BuilderContext) (b : Builder) : Checked IrPrototype := do
  validateEnvironmentSource ctx
  validateOpenResultsFrom none b.instructions
  failIf (2 ^ 32 ≤ b.instructions.length) ctx.span "native debug 結束 PC 溢位"
  validateJumps b.instructions.length b.instructions
  let registerCount := max b.peakRegister 1
  failIf (ctx.limits.maxRegisters < registerCount) ctx.span "register 數超過 IR 限制"
  let instructions ← patchCleanups ctx registerCount b.callStatementCleanups b.instructions
  let upvalues ← upvaluesFrom ctx.span 0 ctx.function.upvalues
  let parameterCount ← match ctx.functionBody with
    | some body => checkU16 body.parameters.length ctx.span "parameter 數超過 IR 限制"
    | none => .ok 0
  .ok
    { id := ctx.id
      function := ctx.function.id
      parent := ctx.parent
      span := ctx.span
      registerCount := registerCount
      parameterCount := parameterCount
      isVariadic := match ctx.functionBody with
        | some body => body.vararg.isSome
        | none => true
      namedVararg := namedVarargOf ctx
      frame :=
        { registerLimit := ctx.limits.maxRegisters
          initialTop := ctx.initialTop
          dynamicTop := b.dynamicTop
          returnBase := 0
          environment := ctx.globalEnvironment
          environmentSource := ctx.environmentSource
          registersStartAsNil := true }
      globalEnvironment := ctx.globalEnvironment
      globalEnvironmentBinding := ctx.globalEnvironmentBinding
      bindingRegisters := ctx.bindingRegisters
      constants := b.constants
      upvalues := upvalues
      instructions := instructions
      closePaths := b.closePaths
      nativeListWriteUpvalue := none
      nativeListWrites := b.nativeListWrites }

/-- The builder behind the body of a function. -/
def buildBody (ctx : BuilderContext) (body : ResolvedBlock) : Checked Builder := do
  let lowerBody : Lower Unit := do
    activateParameters ctx
    lowerBlock ctx body
    finishCode ctx body
  let (_, b) ← lowerBody (emptyBuilder ctx)
  .ok b

/-- `Builder::new`, `lower_block` and `Builder::finish`. -/
def lowerBody (ctx : BuilderContext) (body : ResolvedBlock) : Checked IrPrototype := do
  let b ← buildBody ctx body
  finishPrototype ctx b

end RivetLua.Compiler
