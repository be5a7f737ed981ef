import RivetLua.Bytecode.Module
import RivetLua.Compiler.Resolved

namespace RivetLua.Compiler

open RivetLua.Core
open RivetLua.Bytecode (Register ConstId ProtoId InstructionOffset ResultMode EnvironmentSource
  FrameLayout Instruction UnaryOperation BinaryOperation dynamicArguments)

/-!
# Compiler — the builder of one prototype

The state the code generator threads through a function body, and the operations that touch it
directly: registers, constants, instructions, jump patches, labels, loops and debug records.

* `BuilderContext` — the fields of the source's `Builder` that are set once;
* `Builder` — the fields that change;
* `Lower` — a step of the generator: it changes the builder or stops with an `IrError`.

That memory for a vector runs out is the only failure left out.  `windows` is not a field of the
source: it records where the inputs of calls, returns and assignments were evaluated and where
they have to be, and nothing in the generator reads it.
-/

/-! ### The intermediate representation -/

/-- `IrLimits`. -/
structure IrLimits where
  maxPrototypes : Nat
  maxInstructions : Nat
  maxRegisters : UInt16
  maxUpvaluesPerPrototype : Nat
  deriving DecidableEq, Repr

/-- `IrLimits::default`. -/
def IrLimits.default : IrLimits where
  maxPrototypes := 4096
  maxInstructions := 100000
  maxRegisters := 4096
  maxUpvaluesPerPrototype := 255

/-- `IrError`. -/
structure IrError where
  span : Span
  message : String
  deriving DecidableEq, Repr

/-- `IrConstant`. -/
inductive IrConstant where
  | literal (literal : Literal)
  | boolean (value : Bool)
  | name (bytes : List UInt8)
  deriving DecidableEq, Repr

/-- `IrClosePath`. -/
structure IrClosePath where
  kind : ExitKind
  span : Span
  fromScope : ScopeId
  targetScope : Option ScopeId
  bindings : List BindingId
  registers : List Register
  deriving DecidableEq, Repr

/-- `IrInstruction`. -/
structure IrInstruction where
  instruction : Instruction
  span : Span
  closePath : Option IrClosePath
  deriving DecidableEq, Repr

/-- `IrUpvalue`. -/
structure IrUpvalue where
  id : RivetLua.Bytecode.UpvalueId
  source : UpvalueSource
  deriving DecidableEq, Repr

/-- `IrNativeLocal`: where a binding is visible to the debugger. -/
structure IrNativeLocal where
  binding : BindingId
  register : Register
  slot : UInt16
  initializedPc : UInt32
  startPc : UInt32
  endPc : UInt32
  deriving DecidableEq, Repr

/-- `IrNativeTemporary`: a value that waits in a register while a call runs. -/
structure IrNativeTemporary where
  callPc : InstructionOffset
  ordinal : UInt16
  register : Register
  deriving DecidableEq, Repr

/-- `IrNativeInitializerTemporary`. -/
structure IrNativeInitializerTemporary where
  binding : BindingId
  register : Register
  slot : UInt16
  startPc : UInt32
  endPc : UInt32
  deriving DecidableEq, Repr

/-- `IrNativeListWrite`: a call of the list writer behind an open array field. -/
structure IrNativeListWrite where
  callPc : InstructionOffset
  functionRegister : Register
  deriving DecidableEq, Repr

/-! ### The builder -/

/-- What the source's `Builder` is given and never changes. -/
structure BuilderContext where
  function : ResolvedFunction
  id : ProtoId
  parent : Option ProtoId
  span : Span
  limits : IrLimits
  prototypes : List (FunctionId × ProtoId)
  functions : List ResolvedFunction
  functionBody : Option ResolvedFunctionBody
  globalEnvironment : Register
  globalEnvironmentBinding : BindingId
  environmentSource : EnvironmentSource
  initialTop : Register
  bindingRegisters : List (BindingId × Register)

/-- `LabelEntry`. -/
structure LabelEntry where
  name : List UInt8
  offset : Option InstructionOffset
  deriving DecidableEq, Repr

/-- `LabelFrame`. -/
structure LabelFrame where
  scope : ScopeId
  labels : List LabelEntry
  deriving DecidableEq, Repr

/-- `PendingGoto`: a jump whose label has not been met. -/
structure PendingGoto where
  instruction : Nat
  scope : ScopeId
  name : List UInt8
  span : Span
  deriving DecidableEq, Repr

/-- `LoopFrame`: the jumps that leave the loop. -/
structure LoopFrame where
  breakPatches : List Nat
  deriving DecidableEq, Repr

/-- A value in a register, and the program counter at which its evaluation was complete. -/
structure Input where
  register : Register
  pc : Nat
  deriving DecidableEq, Repr

/-- Inputs that have to stand in the registers from `base` on when `ready` is reached.  The
    registers below `floor` are in use from `start` on and have to be kept. -/
structure Window where
  inputs : List Input
  base : Register
  start : Nat
  floor : Register
  ready : Nat
  deriving DecidableEq, Repr

/-- The changing part of the source's `Builder`. -/
structure Builder where
  dynamicTop : Register
  nextRegister : UInt16
  peakRegister : UInt16
  helperPrivateFloor : UInt16
  openCallGenerationFloor : UInt16
  debugBindingEpoch : UInt32 := 0
  openCallGenerationEpoch : Option UInt32 := none
  openCallPreisolatedEpoch : Option UInt32 := none
  constants : List IrConstant := []
  instructions : List IrInstruction := []
  callStatementCleanups : List (Nat × Register) := []
  closePaths : List IrClosePath := []
  labelFrames : List LabelFrame := []
  pendingGotos : List PendingGoto := []
  loops : List LoopFrame := []
  debugLocals : List IrNativeLocal := []
  debugActive : List Nat := []
  debugScopes : List Nat := []
  debugMaxActive : UInt16 := 0
  pendingExpressionValues : List Register := []
  debugTemporaries : List IrNativeTemporary := []
  debugInitializerTemporaries : List IrNativeInitializerTemporary := []
  debugNonCountedPcs : List InstructionOffset := []
  suppressDebugTemporaries : Bool := false
  nativeListWrites : List IrNativeListWrite := []
  windows : List Window := []

/-- A step of the code generator. -/
abbrev Lower := StateT Builder (Except IrError)

/-- Stop; `limit` and `invalid` of the source both build this error. -/
def stop {α : Type} (span : Span) (message : String) : Lower α := fun _ => .error ⟨span, message⟩

/-- Stop if a condition holds. -/
def stopIf (c : Prop) [Decidable c] (span : Span) (message : String) : Lower Unit := fun b =>
  if c then .error ⟨span, message⟩ else .ok ((), b)

/-- `ok_or_else`. -/
def orStop {α : Type} (value : Option α) (span : Span) (message : String) : Lower α := fun b =>
  match value with
  | some a => .ok (a, b)
  | none => .error ⟨span, message⟩

/-- The number of instructions so far: the address of the next one. -/
def Builder.pc (b : Builder) : Nat := b.instructions.length

/-- The address of the next instruction. -/
def currentPc : Lower Nat := fun b => .ok (b.pc, b)

/-- `u32::try_from`. -/
def toU32 (n : Nat) (span : Span) (message : String) : Lower UInt32 :=
  orStop (if n < 2 ^ 32 then some (UInt32.ofNat n) else none) span message

/-- `u16::try_from`. -/
def toU16 (n : Nat) (span : Span) (message : String) : Lower UInt16 :=
  orStop (if n < 2 ^ 16 then some (UInt16.ofNat n) else none) span message

/-! ### Registers and constants -/

/-- `register_offset`. -/
def registerOffset (base : Register) (offset : Nat) (span : Span) : Lower Register :=
  toU16 (base.toNat + offset) span "register offset 超過 IR 限制"

/-- `Builder::allocate`. -/
def allocate (ctx : BuilderContext) (span : Span) : Lower Register := fun b =>
  if ctx.limits.maxRegisters ≤ b.nextRegister then .error ⟨span, "register 數超過 IR 限制"⟩
  else
    -- below the limit the source's `checked_add` cannot fail
    .ok (b.nextRegister,
      { b with
        nextRegister := b.nextRegister + 1
        peakRegister := max b.peakRegister (b.nextRegister + 1) })

/-- Allocate a number of registers. -/
def allocateMany (ctx : BuilderContext) (span : Span) : Nat → Lower Unit
  | 0 => pure ()
  | count + 1 => do
    let _ ← allocate ctx span
    allocateMany ctx span count

/-- `Builder::reserve_registers`. -/
def reserveRegisters (ctx : BuilderContext) (count : Nat) (span : Span) : Lower Register := do
  let base := (← get).nextRegister
  allocateMany ctx span count
  return base

/-- `while next_register < end { allocate }`. -/
def allocateUpTo (ctx : BuilderContext) (limit : Nat) (span : Span) : Lower Unit := do
  allocateMany ctx span (limit - (← get).nextRegister.toNat)

/-- `Builder::constant`. -/
def constant (value : IrConstant) (span : Span) : Lower ConstId := do
  let id ← toU32 (← get).constants.length span "constant ID 超過 IR 限制"
  modify fun b => { b with constants := b.constants ++ [value] }
  return id

/-- `Builder::binding_register`. -/
def bindingRegister (ctx : BuilderContext) (binding : BindingId) (span : Span) : Lower Register :=
  orStop ((ctx.bindingRegisters.find? fun entry => decide (entry.1 = binding)).map Prod.snd)
    span "P04 binding 不屬於目前 prototype"

/-- `Builder::mark_dynamic_top`. -/
def markDynamicTop (base : Register) : Lower Unit :=
  modify fun b => { b with dynamicTop := base }

/-! ### Emitting -/

/-- `Builder::current_offset`. -/
def currentOffset (span : Span) : Lower InstructionOffset := do
  toU32 (← get).pc span "instruction offset 超過 IR 限制"

/-- The records of the values that wait while the call at `pc` runs. -/
def recordTemporaries (ctx : BuilderContext) (span : Span) (pc : InstructionOffset) :
    List (Register × Nat) → Lower Unit
  | [] => pure ()
  | (register, index) :: rest => do
    stopIf (ctx.limits.maxInstructions ≤ (← get).debugTemporaries.length) span
      "native debug temporary 數超過 IR 限制"
    let ordinal ← toU16 (index + 1) span "native debug temporary ordinal 溢位"
    modify fun b => { b with debugTemporaries := b.debugTemporaries ++ [⟨pc, ordinal, register⟩] }
    recordTemporaries ctx span pc rest

/-- Is this a call? -/
def isCall : Instruction → Bool
  | .call _ _ _ => true
  | _ => false

/-- `Builder::emit`. -/
def emit (ctx : BuilderContext) (instruction : Instruction) (span : Span)
    (closePath : Option IrClosePath) : Lower Unit := do
  stopIf (ctx.limits.maxInstructions ≤ (← get).pc) span "instruction 數超過 IR 限制"
  if isCall instruction && !(← get).suppressDebugTemporaries then
    let pc ← currentOffset span
    recordTemporaries ctx span pc (← get).pendingExpressionValues.zipIdx
  modify fun b => { b with instructions := b.instructions ++ [⟨instruction, span, closePath⟩] }

/-- `Builder::emit_non_counted`: an instruction that the reference implementation does not have. -/
def emitNonCounted (ctx : BuilderContext) (instruction : Instruction) (span : Span) :
    Lower InstructionOffset := do
  let offset ← currentOffset span
  stopIf (ctx.limits.maxInstructions ≤ (← get).debugNonCountedPcs.length) span
    "native debug non-counted PC 數超過 IR 限制"
  emit ctx instruction span none
  modify fun b => { b with debugNonCountedPcs := b.debugNonCountedPcs ++ [offset] }
  return offset

/-- `Builder::mark_last_non_counted`. -/
def markLastNonCounted (ctx : BuilderContext) (span : Span) : Lower Unit := do
  stopIf ((← get).pc = 0) span "native debug non-counted PC 不存在"
  stopIf (ctx.limits.maxInstructions ≤ (← get).debugNonCountedPcs.length) span
    "native debug non-counted PC 數超過 IR 限制"
  let offset ← toU32 ((← get).pc - 1) span "native debug non-counted PC 溢位"
  stopIf (∃ previous ∈ (← get).debugNonCountedPcs.getLast?, offset ≤ previous) span
    "native debug non-counted PC 次序無效"
  modify fun b => { b with debugNonCountedPcs := b.debugNonCountedPcs ++ [offset] }

/-- Rewrite the spans of the instructions from an address on. -/
def respanFrom (start : Nat) (rewrite : Span → Span) : Lower Unit :=
  modify fun b =>
    { b with
      instructions := b.instructions.take start
        ++ (b.instructions.drop start).map fun entry => { entry with span := rewrite entry.span } }

/-- `Builder::push_pending_expression`: bindings and the environment are never recorded. -/
def pushPendingExpression (ctx : BuilderContext) (register : Register) (span : Span) :
    Lower Bool := do
  let b ← get
  if register < ctx.initialTop ∨ register = ctx.globalEnvironment
      ∨ ∃ index ∈ b.debugActive, ∃ entry ∈ b.debugLocals[index]?, entry.register = register then
    return false
  else
    stopIf (ctx.limits.maxRegisters.toNat ≤ b.pendingExpressionValues.length) span
      "native debug pending expression 深度超限"
    modify fun b =>
      { b with pendingExpressionValues := b.pendingExpressionValues ++ [register] }
    return true

/-- Push several registers. -/
def pushPendingExpressions (ctx : BuilderContext) (registers : List Register) (span : Span) :
    Lower Unit :=
  registers.forM fun register => do
    let _ ← pushPendingExpression ctx register span

/-- `pending_expression_values.truncate`. -/
def truncatePending (length : Nat) : Lower Unit :=
  modify fun b => { b with pendingExpressionValues := b.pendingExpressionValues.take length }

/-- `Builder::with_pending_expression`. -/
def withPendingExpression {α : Type} (ctx : BuilderContext) (register : Register) (span : Span)
    (lower : Lower α) : Lower α := do
  let pushed ← pushPendingExpression ctx register span
  let result ← lower
  if pushed then
    modify fun b => { b with pendingExpressionValues := b.pendingExpressionValues.dropLast }
  return result

/-- Record a window that ends at the next instruction. -/
def recordWindow (inputs : List Input) (base : Register) (start : Nat) (floor : Register) :
    Lower Unit :=
  modify fun b => { b with windows := b.windows ++ [⟨inputs, base, start, floor, b.pc⟩] }

/-! ### Jumps, labels and loops -/

/-- The target of a jump that has not been patched. -/
def placeholder : InstructionOffset := 0xFFFFFFFF

/-- `Builder::emit_jump_placeholder`. -/
def emitJumpPlaceholder (ctx : BuilderContext) (span : Span) : Lower Nat := do
  let index := (← get).pc
  emit ctx (.jump placeholder) span none
  return index

/-- `Builder::emit_jump_if_false_placeholder`. -/
def emitJumpIfFalsePlaceholder (ctx : BuilderContext) (condition : Register) (span : Span) :
    Lower Nat := do
  let index := (← get).pc
  emit ctx (.jumpIfFalse condition placeholder) span none
  return index

/-- A jump with a new target. -/
def retargetJump (target : InstructionOffset) : Instruction → Option Instruction
  | .jump _ => some (.jump target)
  | .jumpIfFalse condition _ => some (.jumpIfFalse condition target)
  | _ => none

/-- A numeric-for instruction with a new exit. -/
def retargetExit (exit : InstructionOffset) : Instruction → Option Instruction
  | .numericForPrepare control limit step visible _ =>
    some (.numericForPrepare control limit step visible exit)
  | .numericForNext control limit step visible target _ =>
    some (.numericForNext control limit step visible target exit)
  | _ => none

/-- Patch the instruction at an address. -/
def patchWith (ctx : BuilderContext) (index : Nat) (retarget : Instruction → Option Instruction)
    (missing wrong : String) : Lower Unit := do
  let entry ← orStop (← get).instructions[index]? ctx.span missing
  let instruction ← orStop (retarget entry.instruction) entry.span wrong
  modify fun b =>
    { b with instructions := b.instructions.set index { entry with instruction := instruction } }

/-- `Builder::patch_jump`. -/
def patchJump (ctx : BuilderContext) (index : Nat) (target : InstructionOffset) : Lower Unit :=
  patchWith ctx index (retargetJump target) "CFG patch 指向不存在的 instruction"
    "CFG patch 指向非 jump instruction"

/-- `Builder::patch_numeric_for_exit`. -/
def patchNumericForExit (ctx : BuilderContext) (index : Nat) (exit : InstructionOffset) :
    Lower Unit :=
  patchWith ctx index (retargetExit exit) "NumericFor CFG patch 指向不存在的 instruction"
    "NumericFor CFG patch 指向非 numeric-for instruction"

/-- `Builder::emit_cfg_anchor`: a write to a fresh register marks a place to jump to. -/
def emitCfgAnchor (ctx : BuilderContext) (span : Span) : Lower InstructionOffset := do
  let dest ← allocate ctx span
  emitNonCounted ctx (.loadNil dest 1) span

/-- The labels of a block, each once. -/
def blockLabels : List ResolvedStmt → List LabelEntry → Lower (List LabelEntry)
  | [], labels => return labels
  | .label name _ span :: rest, labels => do
    stopIf (∃ entry ∈ labels, entry.name = name) span "P04 block 有重複 label"
    blockLabels rest (labels ++ [⟨name, none⟩])
  | _ :: rest, labels => blockLabels rest labels

/-- `Builder::enter_label_frame`. -/
def enterLabelFrame (block : ResolvedBlock) : Lower Unit := do
  let labels ← blockLabels block.statements []
  modify fun b => { b with labelFrames := b.labelFrames ++ [⟨block.scope, labels⟩] }

/-- `Builder::leave_label_frame`. -/
def leaveLabelFrame (block : ResolvedBlock) : Lower Unit := do
  let b ← get
  match b.pendingGotos.find? fun pending => decide (pending.scope = block.scope) with
  | some pending => stop pending.span "P04 goto 缺少可 lower 的 label"
  | none =>
    let frame ← orStop b.labelFrames.getLast? block.span "CFG label scope stack 不一致"
    modify fun b => { b with labelFrames := b.labelFrames.dropLast }
    stopIf (frame.scope ≠ block.scope) block.span "CFG label scope stack 不一致"

/-- Give a label its offset; it is an error if it has one. -/
def setLabelOffset (offset : InstructionOffset) (name : List UInt8) (span : Span) :
    List LabelEntry → Lower (List LabelEntry)
  | [] => stop span "P04 label 不在目前 scope"
  | entry :: rest =>
    if entry.name = name then do
      stopIf (entry.offset ≠ none) span "P04 label 重複定義"
      return { entry with offset := some offset } :: rest
    else do
      let rest' ← setLabelOffset offset name span rest
      return entry :: rest'

/-- Patch the gotos that wait for a label; the others wait on. -/
def patchPendingGotos (ctx : BuilderContext) (scope : ScopeId) (name : List UInt8)
    (offset : InstructionOffset) : List PendingGoto → Lower Unit
  | [] => pure ()
  | pending :: rest => do
    if pending.scope = scope ∧ pending.name = name then
      patchJump ctx pending.instruction offset
    else
      modify fun b => { b with pendingGotos := b.pendingGotos ++ [pending] }
    patchPendingGotos ctx scope name offset rest

/-- `Builder::define_label`. -/
def defineLabel (ctx : BuilderContext) (name : List UInt8) (span : Span) : Lower Unit := do
  let offset ← emitCfgAnchor ctx span
  let b ← get
  let frame ← orStop b.labelFrames.getLast? span "label 不在 block scope"
  let labels ← setLabelOffset offset name span frame.labels
  modify fun b =>
    { b with
      labelFrames := b.labelFrames.dropLast ++ [{ frame with labels := labels }]
      pendingGotos := [] }
  patchPendingGotos ctx frame.scope name offset b.pendingGotos

/-- `Builder::push_loop`. -/
def pushLoop : Lower Unit :=
  modify fun b => { b with loops := b.loops ++ [⟨[]⟩] }

/-- Patch several jumps to one target. -/
def patchJumps (ctx : BuilderContext) (target : InstructionOffset) : List Nat → Lower Unit
  | [] => pure ()
  | jump :: rest => do
    patchJump ctx jump target
    patchJumps ctx target rest

/-- `Builder::finish_loop`. -/
def finishLoop (ctx : BuilderContext) (exit : InstructionOffset) (span : Span) : Lower Unit := do
  let frame ← orStop (← get).loops.getLast? span "CFG loop stack 不一致"
  modify fun b => { b with loops := b.loops.dropLast }
  patchJumps ctx exit frame.breakPatches

/-! ### Debug scopes -/

/-- `Builder::isolate_open_call_generation_after_binding_change`. -/
def isolateOpenCallGeneration (b : Builder) : Builder :=
  if ∃ epoch ∈ b.openCallGenerationEpoch,
      b.debugBindingEpoch ≠ 0 ∧ b.debugBindingEpoch - 1 = epoch then
    let floor := max b.openCallGenerationFloor b.peakRegister
    { b with openCallGenerationFloor := floor, nextRegister := max b.nextRegister floor }
  else b

/-- `checked_add(1)` on the epoch of the bindings. -/
def nextEpoch (span : Span) : Lower UInt32 := do
  let epoch := (← get).debugBindingEpoch
  orStop (if epoch.toNat + 1 < 2 ^ 32 then some (epoch + 1) else none) span
    "native debug binding 世代溢位"

/-- `Builder::activate_debug_binding`. -/
def activateDebugBinding (ctx : BuilderContext) (binding : BindingId) (initializedPc startPc : Nat)
    (span : Span) : Lower Unit := do
  stopIf (ctx.limits.maxRegisters.toNat ≤ (← get).debugLocals.length) span
    "native debug local 數超過 IR register 限制"
  let register ← bindingRegister ctx binding span
  let epoch ← nextEpoch span
  let slot ← toU16 (← get).debugActive.length span "native debug local slot 溢位"
  let initializedPc ← toU32 initializedPc span "native debug 初始化 PC 溢位"
  let startPc ← toU32 startPc span "native debug 起始 PC 溢位"
  modify fun b =>
    let b' := isolateOpenCallGeneration
      { b with
        debugLocals := b.debugLocals
          ++ [⟨binding, register, slot, initializedPc, startPc, 0xFFFFFFFF⟩]
        debugActive := b.debugActive ++ [b.debugLocals.length]
        debugBindingEpoch := epoch }
    -- `slot.saturating_add(1)`
    { b' with debugMaxActive := max b'.debugMaxActive (if slot = 0xFFFF then slot else slot + 1) }

/-- `Builder::begin_debug_scope`. -/
def beginDebugScope (ctx : BuilderContext) (span : Span) : Lower Unit := do
  stopIf (ctx.limits.maxInstructions ≤ (← get).debugScopes.length) span
    "native debug scope 深度超過 IR 限制"
  modify fun b => { b with debugScopes := b.debugScopes ++ [b.debugActive.length] }

/-- The debug records of the bindings that end at a place. -/
def endDebugLocals (endPc : UInt32) (ended : List Nat) (locals : List IrNativeLocal) :
    List IrNativeLocal :=
  locals.zipIdx.map fun entry => if entry.2 ∈ ended then { entry.1 with endPc := endPc } else entry.1

/-- `Builder::end_debug_scope`. -/
def endDebugScope (span : Span) : Lower Unit := do
  let count ← orStop (← get).debugScopes.getLast? span "native debug scope stack 不一致"
  modify fun b => { b with debugScopes := b.debugScopes.dropLast }
  let endPc ← toU32 (← get).pc span "native debug 結束 PC 溢位"
  if count < (← get).debugActive.length then
    let epoch ← nextEpoch span
    modify fun b => isolateOpenCallGeneration
      { b with
        debugLocals := endDebugLocals endPc (b.debugActive.drop count) b.debugLocals
        debugActive := b.debugActive.take count
        debugBindingEpoch := epoch }

end RivetLua.Compiler
