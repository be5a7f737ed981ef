import RivetLua.Compiler.StmtWindows

namespace RivetLua.Compiler

open StateExcept
open RivetLua.Bytecode (Register Instruction InstructionOffset ResultMode dynamicArguments)

/-!
# Compiler — the windows of blocks

Every statement keeps the builder sound, if all its sites are safe; hence so does every block.

* `steady_lowerAssignment`, `steady_lowerLocal` — assignments and declarations;
* `steady_lowerWhile`, `steady_lowerGenericFor`, … — loops, given that the body is steady;
* `steady_lowerBlock` — all blocks.
-/

variable {ctx : BuilderContext} {held : BindingId → Bool} {captured : Nat → Prop}

/-! ### Assignments -/

theorem steady_snapshotTableTarget {jumps : List Nat} {table key : Register} {span : Span} :
    SteadyFor ctx held jumps (snapshotTableTarget ctx table key span) :=
  steady_allocate.bind fun _ => (steady_emit rfl).bind fun _ => steady_allocate.bind fun _ =>
    (steady_emit rfl).bind fun _ => .pure

theorem steady_prepareAssignmentTarget (hctx : ctx.WellFormed) {jumps : List Nat} {span : Span} :
    ∀ {target : ResolvedExpr},
      (∀ site ∈ targetSites ctx target, site.safe ctx held = true) →
      SteadyFor ctx held jumps (prepareAssignmentTarget ctx span target)
  | .name _ (.local _) _, _ => idle_bindingRegister.steady.bind fun _ => .pure
  | .name _ (.upvalue _) _, _ => idle_toU16.steady.bind fun _ => .pure
  | .index _ _ _, h => by
    simp only [targetSites, List.mem_append] at h
    exact (steady_lowerExpr hctx fun site hs => h site (.inl hs)).bind fun _ =>
      (steady_lowerExpr hctx fun site hs => h site (.inr hs)).bind fun _ =>
        steady_snapshotTableTarget
  | .field _ _ _, h => (steady_lowerExpr hctx h).bind fun _ => steady_nameConstant.bind fun _ =>
      steady_snapshotTableTarget
  | .name _ (.envField _ _) _, _ => steady_nameConstant.bind fun _ => steady_bindingValue.bind
      fun _ => steady_snapshotTableTarget
  | .name _ (.global _) _, _ => steady_nameConstant.bind fun _ => steady_snapshotTableTarget
  | .literal _ _, _ | .nil _, _ | .bool _ _, _ | .vararg _ _, _ | .unary _ _ _, _
  | .binary _ _ _ _, _ | .paren _ _, _ | .call _ _ _, _ | .methodCall _ _ _ _, _
  | .function _ _, _ | .tableConstructor _ _, _ => idle_stop.steady

theorem steady_prepareTargets (hctx : ctx.WellFormed) {jumps : List Nat} {span : Span} :
    ∀ {targets : List ResolvedExpr},
      (∀ site ∈ targets.flatMap (targetSites ctx), site.safe ctx held = true) →
      SteadyFor ctx held jumps (prepareTargets ctx span targets)
  | [], _ => .pure
  | _ :: _, h => by
    simp only [List.flatMap_cons, List.mem_append] at h
    exact (steady_prepareAssignmentTarget hctx fun site hs => h site (.inl hs)).bind fun _ =>
      (steady_prepareTargets hctx fun site hs => h site (.inr hs)).bind fun _ => .pure

theorem steady_storePreparedTarget {jumps : List Nat} {target : PreparedAssignmentTarget}
    {value : Register} {span : Span} :
    SteadyFor ctx held jumps (storePreparedTarget ctx target value span) := by
  cases target <;> exact steady_emit rfl

theorem steady_storePreparedTargets {jumps : List Nat} {base : Register} {span storeSpan : Span} :
    ∀ (index : Nat) (targets : List PreparedAssignmentTarget),
      SteadyFor ctx held jumps (storePreparedTargets ctx base span storeSpan index targets)
  | _, [] => .pure
  | index, _ :: rest => idle_registerOffset.steady.bind fun _ =>
    steady_storePreparedTarget.bind fun _ => steady_storePreparedTargets (index + 1) rest

theorem steady_storeTarget (hctx : ctx.WellFormed) {jumps : List Nat} {target : ResolvedExpr}
    {value : Register} {span : Span}
    (hsites : ∀ site ∈ targetSites ctx target, site.safe ctx held = true) :
    SteadyFor ctx held jumps (storeTarget ctx target value span) :=
  (steady_prepareAssignmentTarget hctx hsites).bind fun _ => steady_storePreparedTarget

theorem idle_temporariesSince {start : UInt16} : Idle (temporariesSince start) := by
  intro b a b' h
  cases h
  rfl

theorem steady_lowerAssignment (hctx : ctx.WellFormed) {jumps : List Nat}
    {targets values : List ResolvedExpr} {span : Span}
    (hsites : ∀ site ∈ statementSites ctx (.assignment targets values span),
      site.safe ctx held = true) :
    SteadyFor ctx held jumps (lowerAssignment ctx targets values span) := by
  simp only [statementSites, List.mem_append] at hsites
  have htargets : SteadyFor ctx held jumps (prepareTargets ctx span targets) :=
    steady_prepareTargets hctx fun site hs => hsites site (.inl hs)
  have hvalues : SteadyFor ctx held jumps (lowerFixedValues ctx values targets.length span) :=
    steady_lowerFixedValues hctx fun site hs => hsites site (.inr hs)
  have hend : ∀ {base : Register} {destinations : List PreparedAssignmentTarget}
      {start : UInt16} {storeSpan : Span}, SteadyFor ctx held jumps (do
        storePreparedTargets ctx base span storeSpan 0 destinations
        let temporaryCount ← temporariesSince start
        if temporaryCount ≠ 0 then
          let _ ← emitNonCounted ctx (.loadNil start temporaryCount) storeSpan) :=
    (steady_storePreparedTargets 0 _).bind fun _ => idle_temporariesSince.steady.bind fun _ =>
      .ite ((steady_emitNonCounted rfl).bind fun _ => .pure) .pure
  simp only [lowerAssignment]
  refine .of_get fun _ => idle_currentPc.steady.bind fun _ => htargets.bind fun destinations => ?_
  cases binaryGap targets values with
  | none => exact idle_currentPc.steady.bind fun _ => hvalues.bind fun base => hend
  | some gap =>
    refine idle_respanFrom.steady.bind fun _ => idle_currentPc.steady.bind fun _ =>
      hvalues.bind fun base => .of_get fun _ => ?_
    split
    · exact idle_respanFrom.steady.bind fun _ => hend
    · exact hend

/-! ### Declarations -/

theorem idle_declarationMarker {binding : BindingId} {dest : Register} {span : Span} :
    Idle (declarationMarker ctx binding dest span) := by
  unfold declarationMarker
  split
  · exact Leaves.pure
  · exact Leaves.get fun _ => Leaves.bind idle_orStop fun _ => .pure

theorem steady_initializeBindings {jumps : List Nat} {base : Register} {span debugSpan : Span}
    {single : Bool} :
    ∀ (index : Nat) (bindings : List BindingId),
      SteadyFor ctx held jumps (initializeBindings ctx base span debugSpan single index bindings)
  | _, [] => .pure
  | index, _ :: rest => idle_bindingRegister.steady.bind fun _ =>
    idle_registerOffset.steady.bind fun _ => idle_declarationMarker.steady.bind fun _ =>
    (steady_emit rfl).bind fun _ => .ite
      (idle_markLastNonCounted.steady.bind fun _ => steady_initializeBindings (index + 1) rest)
      (steady_initializeBindings (index + 1) rest)

theorem idle_recordInitializers {rhsStart : Nat} {span : Span} :
    ∀ locals : List IrNativeLocal, Idle (recordInitializers ctx rhsStart span locals)
  | [] => Leaves.pure
  | _ :: rest => Leaves.get fun _ => idle_stopIf.bind fun _ => idle_toU32.bind fun _ =>
    Leaves.bind (.modify fun _ => rfl) fun _ => idle_recordInitializers rest

theorem steady_lowerLocal (hctx : ctx.WellFormed) {jumps : List Nat} {bindings : List BindingId}
    {values : List ResolvedExpr} {span : Span}
    (hsites : ∀ site ∈ valueSites ctx values bindings.length, site.safe ctx held = true) :
    SteadyFor ctx held jumps (lowerLocal ctx bindings values span) := by
  have hactivate : ∀ {rhsStart initializedStart : Nat}, SteadyFor ctx held jumps (do
      let startPc ← currentPc
      activateBindings ctx initializedStart startPc 0 (bindings.map fun binding => (binding, span))
      if rhsStart < startPc then
        let locals := (← get).debugLocals
        recordInitializers ctx rhsStart span (locals.drop (locals.length - bindings.length))) :=
    idle_currentPc.steady.bind fun _ => (steady_activateBindings 0 _).bind fun _ =>
      .ite (.of_get fun _ => (idle_recordInitializers _).steady) .pure
  have hinitialize : ∀ {rhsStart : Nat} {base start : Register} {debugSpan : Span} {single : Bool},
      SteadyFor ctx held jumps (do
        let initializedStart ← currentPc
        initializeBindings ctx base span debugSpan single 0 bindings
        let temporaryCount ← temporariesSince start
        if temporaryCount ≠ 0 then
          emit ctx (.loadNil start temporaryCount) debugSpan none
          if single then
            markLastNonCounted ctx span
        let startPc ← currentPc
        activateBindings ctx initializedStart startPc 0 (bindings.map fun binding => (binding, span))
        if rhsStart < startPc then
          let locals := (← get).debugLocals
          recordInitializers ctx rhsStart span (locals.drop (locals.length - bindings.length))) :=
    idle_currentPc.steady.bind fun _ => (steady_initializeBindings 0 _).bind fun _ =>
      idle_temporariesSince.steady.bind fun _ => .ite ((steady_emit rfl).bind fun _ =>
        .ite (idle_markLastNonCounted.steady.bind fun _ => hactivate) hactivate) hactivate
  unfold lowerLocal
  refine idle_currentPc.steady.bind fun rhsStart => .of_get fun _ => ?_
  refine (steady_lowerFixedValues hctx hsites).bind fun base => .of_get fun _ => ?_
  exact SteadyFor.ite (idle_respanFrom.steady.bind fun _ => idle_markLastNonCounted.steady.bind
    fun _ => hinitialize) hinitialize

theorem steady_lowerLocalFunction {jumps : List Nat} {name : ResolvedLocalName}
    {body : ResolvedFunctionBody} {span : Span} :
    SteadyFor ctx held jumps (lowerLocalFunction ctx name body span) := by
  simp only [lowerLocalFunction]
  refine .of_get fun _ => steady_lowerFunction.bind fun _ => idle_bindingRegister.steady.bind
    fun _ => idle_currentPc.steady.bind fun _ => (steady_emit rfl).bind fun _ =>
    idle_temporariesSince.steady.bind fun _ => .ite ((steady_emit rfl).bind fun _ => ?_) ?_
  all_goals exact idle_currentPc.steady.bind fun _ => steady_activateDebugBinding

theorem steady_lowerGlobalNames (hctx : ctx.WellFormed) {jumps : List Nat} {span : Span} :
    ∀ {names : List ResolvedLocalName} {values : List ResolvedExpr},
      (∀ site ∈ (values.take names.length).flatMap (exprSites ctx), site.safe ctx held = true) →
      SteadyFor ctx held jumps (lowerGlobalNames ctx span names values)
  | [], _, _ => .pure
  | _ :: names, [], _ => steady_nilRegister.bind fun _ => steady_nameConstant.bind fun _ =>
    (steady_emit rfl).bind fun _ => steady_lowerGlobalNames hctx (by simp)
  | _ :: names, value :: values, h => by
    simp only [List.length_cons, List.take_succ_cons, List.flatMap_cons, List.mem_append] at h
    exact (steady_lowerExpr hctx fun site hs => h site (.inl hs)).bind fun _ =>
      steady_nameConstant.bind fun _ => (steady_emit rfl).bind fun _ =>
      steady_lowerGlobalNames hctx fun site hs => h site (.inr hs)

theorem steady_lowerGlobal (hctx : ctx.WellFormed) {jumps : List Nat}
    {declaration : ResolvedGlobalDeclaration} {span : Span}
    (hsites : ∀ site ∈ globalSites ctx declaration, site.safe ctx held = true) :
    SteadyFor ctx held jumps (lowerGlobal ctx declaration span) := by
  unfold lowerGlobal
  split
  · exact .pure
  · exact steady_lowerGlobalNames hctx hsites
  · exact .pure
  · exact steady_lowerFunction.bind fun _ => steady_nameConstant.bind fun _ => steady_emit rfl

/-! ### Loops -/

theorem steady_lowerForControl {jumps : List Nat} {value : Lower Register} {span : Span}
    (hvalue : SteadyFor ctx held jumps value) :
    SteadyFor ctx held jumps (lowerForControl ctx value span) :=
  idle_currentPc.steady.bind fun _ => hvalue.bind fun _ => steady_allocate.bind fun _ =>
    idle_currentPc.steady.bind fun _ => .ite
      ((steady_emitNonCounted rfl).bind fun _ => .pure) ((steady_emit rfl).bind fun _ => .pure)

theorem steady_lowerWhile (hctx : ctx.WellFormed) {jumps : List Nat} {condition : ResolvedExpr}
    {body : Lower Unit} {span : Span}
    (hsites : ∀ site ∈ exprSites ctx condition, site.safe ctx held = true)
    (hbody : ∀ jumps, SteadyFor ctx held jumps body) :
    SteadyFor ctx held jumps (lowerWhile ctx condition body span) :=
  idle_currentOffset.steady.bind fun _ => (steady_lowerExpr hctx hsites).bind fun _ =>
    .bind_jumpIfFalse fun _ => idle_pushLoop.steady.bind fun _ => (hbody _).bind fun _ =>
    (steady_emit rfl).bind fun _ => steady_emitCfgAnchor.bind fun _ =>
    (steady_patchJump List.mem_cons_self).bind fun _ => steady_finishLoop

theorem steady_lowerRepeat (hctx : ctx.WellFormed) {jumps : List Nat} {statements : Lower Unit}
    {bodySpan : Span} {normalClosePath : ClosePath} {condition : ResolvedExpr} {span : Span}
    (hsites : ∀ site ∈ exprSites ctx condition, site.safe ctx held = true)
    (hbody : ∀ jumps, SteadyFor ctx held jumps statements) :
    SteadyFor ctx held jumps
      (lowerRepeat ctx statements bodySpan normalClosePath condition span) := by
  have hend : ∀ {conditionValue : Register} {loopStart : InstructionOffset},
      SteadyFor ctx held jumps (do
        emitClose ctx normalClosePath
        emitExitedBindingCleanup ctx normalClosePath
        endDebugScope bodySpan
        let falseJump ← emitJumpIfFalsePlaceholder ctx conditionValue condition.span
        emit ctx (.loadNil conditionValue 1) condition.span none
        let exitJump ← emitJumpPlaceholder ctx span
        patchJump ctx falseJump (← currentOffset span)
        emit ctx (.loadNil conditionValue 1) condition.span none
        emit ctx (.jump loopStart) span none
        let exit ← emitCfgAnchor ctx condition.span
        patchJump ctx exitJump exit
        finishLoop ctx exit span) :=
    steady_emitClose.bind fun _ => steady_emitExitedBindingCleanup.bind fun _ =>
      steady_endDebugScope.bind fun _ => .bind_jumpIfFalse fun _ => (steady_emit rfl).bind fun _ =>
      .bind_jump fun _ => idle_currentOffset.steady.bind fun _ =>
      (steady_patchJump (List.mem_cons_of_mem _ List.mem_cons_self)).bind fun _ =>
      (steady_emit rfl).bind fun _ => (steady_emit rfl).bind fun _ =>
      steady_emitCfgAnchor.bind fun _ => (steady_patchJump List.mem_cons_self).bind fun _ =>
      steady_finishLoop
  simp only [lowerRepeat]
  exact steady_emitCfgAnchor.bind fun _ => idle_pushLoop.steady.bind fun _ => (hbody _).bind fun _ =>
    .of_get fun _ => (steady_lowerExpr hctx hsites).bind fun _ =>
    idle_temporariesSince.steady.bind fun _ => steady_allocate.bind fun _ =>
    (steady_emit rfl).bind fun _ => .ite ((steady_emit rfl).bind fun _ => hend) hend

theorem steady_lowerForStep (hctx : ctx.WellFormed) {jumps : List Nat} {step : Option ResolvedExpr}
    {span : Span} (hsites : ∀ e ∈ step, ∀ site ∈ exprSites ctx e, site.safe ctx held = true) :
    SteadyFor ctx held jumps (lowerForStep ctx step span) := by
  cases step with
  | none => exact steady_constantRegister
  | some e => exact steady_lowerExpr hctx (hsites e rfl)

theorem steady_lowerNumericFor (hctx : ctx.WellFormed) {jumps : List Nat} {name : ResolvedLocalName}
    {initial limit : ResolvedExpr} {step : Option ResolvedExpr} {body : Lower Unit} {span : Span}
    (hinitial : ∀ site ∈ exprSites ctx initial, site.safe ctx held = true)
    (hlimit : ∀ site ∈ exprSites ctx limit, site.safe ctx held = true)
    (hstep : ∀ e ∈ step, ∀ site ∈ exprSites ctx e, site.safe ctx held = true)
    (hbody : ∀ jumps, SteadyFor ctx held jumps body) :
    SteadyFor ctx held jumps (lowerNumericFor ctx name initial limit step body span) := by
  refine idle_bindingRegister.steady.bind fun visible =>
    (steady_lowerForControl (steady_lowerExpr hctx hinitial)).bind fun _ =>
    (steady_lowerForControl (steady_lowerExpr hctx hlimit)).bind fun _ =>
    (steady_lowerForControl (steady_lowerForStep hctx hstep)).bind fun _ =>
    .bind_emit rfl fun prepare => steady_emitCfgAnchor.bind fun _ =>
    idle_beginDebugScope.steady.bind fun _ => steady_activateDebugBinding.bind fun _ =>
    idle_pushLoop.steady.bind fun _ => (hbody _).bind fun _ =>
    steady_emitCapturedBindingClose.bind fun _ => ?_
  refine SteadyFor.bind_emit_last (f := fun next => do
    let exit ← emitCfgAnchor ctx span
    patchNumericForExit ctx prepare exit
    patchNumericForExit ctx next exit
    finishLoop ctx exit span
    let _ ← emitNonCounted ctx (.loadNil visible 1) span
    endDebugScope span) rfl fun next => ?_
  exact steady_emitCfgAnchor.bind fun _ =>
    (steady_patchNumericForExit (List.mem_cons_of_mem _ List.mem_cons_self)).bind fun _ =>
    (steady_patchNumericForExit List.mem_cons_self).bind fun _ => steady_finishLoop.bind fun _ =>
    (steady_emitNonCounted rfl).bind fun _ => steady_endDebugScope

/-! ### Generic for -/

theorem copyRegister_eq_ok {source : Register} {span : Span} {b b' : Builder} {r : Register}
    (h : copyRegister ctx source span b = .ok (r, b')) :
    r.toNat = b.core.next
      ∧ b'.core = { b.core with next := b.core.next + 1 }.push (.move r source) := by
  simp only [copyRegister, bind_eq_ok, pure_eq_ok] at h
  obtain ⟨r', b₁, h₁, u, b₂, h₂, rfl, rfl⟩ := h
  rw [emit_eq_ok h₂, (allocate_eq_ok h₁).2]
  exact ⟨(allocate_eq_ok h₁).1, rfl⟩

theorem steady_copyRegister {jumps : List Nat} {source : Register} {span : Span} :
    SteadyFor ctx held jumps (copyRegister ctx source span) :=
  steady_allocate.bind fun _ => (steady_emit rfl).bind fun _ => .pure

theorem steady_moveToNames {jumps : List Nat} {base : Register} {span : Span} :
    ∀ (index : Nat) (names : List ResolvedLocalName),
      SteadyFor ctx held jumps (moveToNames ctx base span index names)
  | _, [] => .pure
  | index, _ :: rest => idle_toU16.steady.bind fun _ => idle_toU16.steady.bind fun _ =>
    idle_bindingRegister.steady.bind fun _ => (steady_emit rfl).bind fun _ =>
    steady_moveToNames (index + 1) rest

theorem steady_clearNames {jumps : List Nat} {names : List ResolvedLocalName} :
    SteadyFor ctx held jumps (clearNames ctx names) :=
  .forM (fun _ => idle_bindingRegister.steady.bind fun _ => steady_emit rfl) _

/-- The hidden registers of a generic for that the call of the iterator copies. -/
def GenericForRegisters.Below (registers : GenericForRegisters) (next : Nat) : Prop :=
  registers.iterator.toNat < next ∧ registers.state.toNat < next ∧ registers.control.toNat < next

theorem lowerGenericForSetup_ensures (hctx : ctx.WellFormed) {jumps : List Nat}
    {values : List ResolvedExpr} {closing : ResolvedGenericForClose} {closePath : ClosePath}
    {span : Span} (hsites : ∀ site ∈ valueSites ctx values 4, site.safe ctx held = true) :
    Ensures (SoundFor ctx held jumps) (lowerGenericForSetup ctx values closing closePath span)
      fun registers b => SoundFor ctx held jumps b ∧ registers.Below b.core.next := by
  intro b registers b' hb hrun
  simp only [lowerGenericForSetup, bind_eq_ok, get_eq_ok] at hrun
  obtain ⟨u₁, b₁, h₁, _, _, ⟨rfl, rfl⟩, base, b₂, h₂, count, b₃, h₃, iterator, b₄, h₄, source, b₅, h₅,
    closingRegister, b₆, h₆, pc, b₇, h₇, u₈, b₈, h₈, u₉, b₉, h₉, pc', b₁₀, h₁₀, u₁₁, b₁₁, h₁₁, r₁₂,
    b₁₂, h₁₂, state, b₁₃, h₁₃, r₁₄, b₁₄, h₁₄, control, b₁₅, h₁₅, hrun⟩ := hrun
  obtain ⟨-, rfl⟩ := registerOffset_eq_ok h₅
  obtain ⟨-, rfl⟩ := currentPc_eq_ok h₇
  obtain ⟨-, rfl⟩ := currentPc_eq_ok h₁₀
  obtain ⟨-, rfl⟩ := registerOffset_eq_ok h₁₂
  obtain ⟨-, rfl⟩ := registerOffset_eq_ok h₁₄
  -- soundness, step by step
  have hb₁ := idle_stopIf.steady b u₁ b₁ hb h₁
  have hb₂ := steady_lowerFixedValues hctx hsites b₁ base b₂ hb₁ h₂
  have hb₃ := idle_temporariesSince.steady b₂ count b₃ hb₂ h₃
  have hb₅ := steady_copyRegister b₃ iterator b₅ hb₃ h₄
  have hb₇ := idle_bindingRegister.steady b₅ closingRegister b₇ hb₅ h₆
  have hb₈ := steady_emit rfl b₇ u₈ b₈ hb₇ h₈
  have hb₁₀ := idle_beginDebugScope.steady b₈ u₉ b₁₀ hb₈ h₉
  have hb₁₂ := steady_activateDebugBinding b₁₀ u₁₁ b₁₂ hb₁₀ h₁₁
  have hb₁₄ := steady_copyRegister b₁₂ state b₁₄ hb₁₂ h₁₃
  have hb₁₅ := steady_copyRegister b₁₄ control b₁₅ hb₁₄ h₁₅
  -- the registers are taken one after the other
  obtain ⟨hiterator, hcore₅⟩ := copyRegister_eq_ok h₄
  obtain ⟨hstate, hcore₁₄⟩ := copyRegister_eq_ok h₁₃
  obtain ⟨hcontrol, hcore₁₅⟩ := copyRegister_eq_ok h₁₅
  obtain ⟨next, hle, hcore₁₂⟩ := raises_activateDebugBinding b₁₀ u₁₁ b₁₂ h₁₁
  have hnext₁₀ : b₁₀.core.next = b₃.core.next + 1 := by
    rw [idle_beginDebugScope _ _ _ h₉, emit_eq_ok h₈, Core.push_next, idle_bindingRegister _ _ _ h₆,
      hcore₅]
    rfl
  have hnext₁₂ : b₁₂.core.next = next := by rw [hcore₁₂]
  have hnext₁₄ : b₁₄.core.next = b₁₂.core.next + 1 := by rw [hcore₁₄]; rfl
  have hnext₁₅ : b₁₅.core.next = b₁₄.core.next + 1 := by rw [hcore₁₅]; rfl
  have hbelow : GenericForRegisters.Below ⟨iterator, state, control, closingRegister⟩
      b₁₅.core.next :=
    ⟨by dsimp only; omega, by dsimp only; omega, by dsimp only; omega⟩
  split at hrun
  · obtain ⟨u₁₆, b₁₆, h₁₆, hrun⟩ := bind_eq_ok.mp hrun
    obtain ⟨rfl, rfl⟩ := pure_eq_ok.mp hrun
    refine ⟨steady_emit rfl b₁₅ u₁₆ b₁₆ hb₁₅ h₁₆, ?_⟩
    rw [emit_eq_ok h₁₆]
    exact hbelow
  · obtain ⟨rfl, rfl⟩ := pure_eq_ok.mp hrun
    exact ⟨hb₁₅, hbelow⟩

/-- The call of the iterator: its window holds copies of the hidden registers. -/
theorem lowerGenericForCall_ensures (hctx : ctx.WellFormed) {jumps : List Nat}
    {registers : GenericForRegisters} {names : Nat} {span : Span} :
    Ensures (fun b => SoundFor ctx held jumps b ∧ registers.Below b.core.next)
      (lowerGenericForCall ctx registers names span)
      fun result => SoundFor ctx held (result.2 :: jumps) := by
  rintro b ⟨callBase, exitJump⟩ b' ⟨hb, hiterator, hstate, hcontrol⟩ hrun
  simp only [lowerGenericForCall, bind_eq_ok, pure_eq_ok] at hrun
  obtain ⟨start, b₀, h₀, base, b₁, h₁, r₂, b₂, h₂, r₃, b₃, h₃, count, b₄, h₄, u₅, b₅, h₅, u₆, b₆, h₆,
    u₇, b₇, h₇, u₈, b₈, h₈, nil, b₉, h₉, nonNil, b₁₀, h₁₀, u₁₁, b₁₁, h₁₁, jump, b₁₂, h₁₂, heq, rfl⟩ := hrun
  cases heq
  obtain ⟨rfl, rfl⟩ := currentPc_eq_ok h₀
  obtain ⟨hbase, hcore₁⟩ := copyRegister_eq_ok h₁
  obtain ⟨hr₂, hcore₂⟩ := copyRegister_eq_ok h₂
  obtain ⟨hr₃, hcore₃⟩ := copyRegister_eq_ok h₃
  have hcore₆ : b₆.core = { b₃.core with next := b₃.core.next + (names - 3) } := by
    rw [allocateMany_eq_ok h₆, idle_stopIf _ _ _ h₅, idle_toU16 _ _ _ h₄]
  have hnext₁ : b₁.core.next = b₀.core.next + 1 := by rw [hcore₁]; rfl
  have hnext₂ : b₂.core.next = b₁.core.next + 1 := by rw [hcore₂]; rfl
  have hnext₃ : b₃.core.next = b₂.core.next + 1 := by rw [hcore₃]; rfl
  have hnext₆ : b₆.core.next = b₃.core.next + (names - 3) := by rw [hcore₆]
  -- the window of the iterator
  have hcopied : Copied callBase.toNat 0 [⟨registers.iterator, b₀.core.pc⟩, ⟨registers.state, b₀.core.pc⟩,
      ⟨registers.control, b₀.core.pc⟩] { b₀.core with next := b₆.core.next } b₆.core := by
    refine .cons rfl (.cons (by omega : r₂.toNat = _) (.cons (by omega : r₃.toNat = _) ?_))
    have hcode : b₆.core = Core.push (Core.push (Core.push { b₀.core with next := b₆.core.next }
        (.move callBase registers.iterator)) (.move r₂ registers.state))
        (.move r₃ registers.control) := by
      rw [hnext₆, hcore₆, hcore₃, hcore₂, hcore₁]
      rfl
    rw [← hcode]
    exact .nil
  have htop := hb.1.top_le
  have hkept : ∀ input ∈ [Input.mk registers.iterator b₀.core.pc, ⟨registers.state, b₀.core.pc⟩,
      ⟨registers.control, b₀.core.pc⟩], input.Kept (ctx.heldRegister held) b₀.core b₀.core.pc := by
    intro input hi
    simp only [List.mem_cons, List.not_mem_nil, or_false] at hi
    rcases hi with rfl | rfl | rfl <;> exact Input.kept_now le_rfl
  have hclear : ∀ j input, [Input.mk registers.iterator b₀.core.pc, ⟨registers.state, b₀.core.pc⟩,
      ⟨registers.control, b₀.core.pc⟩][j]? = some input →
      ∀ k < j, input.register.toNat ≠ callBase.toNat + k := by
    intro j input hj k _
    have hi := List.mem_of_getElem? hj
    simp only [List.mem_cons, List.not_mem_nil, or_false] at hi
    rcases hi with rfl | rfl | rfl <;> dsimp only <;> omega
  have hfill : Emits (ctx.heldRegister held) callBase.toNat False b₀.core b₇.core := by
    rw [recordWindow_eq_ok h₇, ← Builder.core_pc, ← Builder.core_pc]
    have hle : b₀.core.next ≤ b₆.core.next := by omega
    exact fill_emits .refl .refl le_rfl le_rfl hle hkept hcopied .refl hclear
      fun register hr => hctx.not_held (by omega)
  have hcall : Emits (ctx.heldRegister held) callBase.toNat False b₇.core b₈.core := by
    rw [emit_eq_ok h₈, recordWindow_eq_ok h₇]
    refine .call ⟨_, List.mem_append_right _ (List.mem_singleton.mpr rfl), rfl, ?_, .inr rfl⟩ le_rfl
    exact (Builder.core_pc b₆).symm
  have hb₈ : SoundFor ctx held jumps b₈ := (hfill.trans hcall).soundFor hb
  have hb₉ := steady_nilRegister b₈ nil b₉ hb₈ h₉
  have hb₁₀ := steady_allocate b₉ nonNil b₁₀ hb₉ h₁₀
  have hb₁₁ := steady_emit rfl b₁₀ u₁₁ b₁₁ hb₁₀ h₁₁
  exact ensures_emitJumpIfFalsePlaceholder b₁₁ exitJump b₁₂ hb₁₁ h₁₂

theorem steady_lowerGenericFor (hctx : ctx.WellFormed) {jumps : List Nat}
    {names : List ResolvedLocalName} {values : List ResolvedExpr}
    {closing : ResolvedGenericForClose} {body : Lower Unit} {closePath : ClosePath} {span : Span}
    (hsites : ∀ site ∈ valueSites ctx values 4, site.safe ctx held = true)
    (hbody : ∀ jumps, SteadyFor ctx held jumps body) :
    SteadyFor ctx held jumps (lowerGenericFor ctx names values closing body closePath span) := by
  refine Ensures.bind (lowerGenericForSetup_ensures hctx hsites) fun registers => ?_
  rintro b u b' ⟨hb, hbelow⟩ hrun
  obtain ⟨loopStart, b₁, h₁, hcall⟩ := bind_eq_ok.mp hrun
  obtain ⟨⟨callBase, exitJump⟩, b₂, h₂, hrest⟩ := bind_eq_ok.mp hcall
  obtain ⟨-, rfl⟩ := currentOffset_eq_ok h₁
  have hb₂ := lowerGenericForCall_ensures hctx _ _ _ ⟨hb, hbelow⟩ h₂
  refine ((?_ : SteadyFor ctx held (exitJump :: jumps) _) b₂ u b' hb₂ hrest).of_subset
    (List.subset_cons_self ..)
  exact (steady_emit rfl).bind fun _ => idle_beginDebugScope.steady.bind fun _ =>
    idle_currentPc.steady.bind fun _ => (steady_moveToNames 0 _).bind fun _ =>
    idle_currentPc.steady.bind fun _ => (steady_activateBindings 0 _).bind fun _ =>
    idle_pushLoop.steady.bind fun _ => (hbody _).bind fun _ =>
    (SteadyFor.forM (fun _ => steady_emitCapturedBindingClose) _).bind fun _ =>
    steady_clearNames.bind fun _ => (steady_emit rfl).bind fun _ => steady_endDebugScope.bind fun _ =>
    steady_emitCfgAnchor.bind fun _ => (steady_patchJump List.mem_cons_self).bind fun _ =>
    steady_emitTbcClose.bind fun _ => (steady_emit rfl).bind fun _ => steady_endDebugScope.bind fun _ =>
    steady_emitCfgAnchor.bind fun _ => steady_finishLoop

/-! ### Blocks -/

theorem raises_isolateBefore {statement : ResolvedStmt} : Raises (isolateBefore statement) := by
  refine raises_modify fun b => ?_
  dsimp only
  split
  · exact ⟨_, toNat_le_max_left .., rfl⟩
  · exact ⟨b.core.next, le_rfl, rfl⟩

theorem steady_releaseAfter {jumps : List Nat} {epoch : UInt32} {temporaryStart : UInt16}
    {start : Nat} (htop : ctx.initialTop.toNat ≤ temporaryStart.toNat) :
    SteadyFor ctx held jumps (releaseAfter epoch temporaryStart start) := by
  refine Ensures.modify fun b hb => ?_
  have hcore : ∀ (floor : UInt16), ctx.initialTop.toNat
      ≤ (max (max temporaryStart b.helperPrivateFloor) floor).toNat := fun floor =>
    (htop.trans (toNat_le_max_left ..)).trans (toNat_le_max_left ..)
  dsimp only
  split
  all_goals exact ⟨⟨hcore _, hb.1.placed, hb.1.waiting, hb.1.calls⟩, hb.2⟩

/-- One statement: its temporaries are given back, but never the registers of the frame. -/
theorem steady_lowerOneStatement {jumps : List Nat} {statement : ResolvedStmt} {lower : Lower Unit}
    (hlower : SteadyFor ctx held jumps lower) :
    SteadyFor ctx held jumps (lowerOneStatement statement lower) := by
  refine .of_get fun _ => raises_isolateBefore.steady.bind fun _ b u b' hb hrun => ?_
  have hrun := get_bind_eq_ok.mp hrun
  refine (?_ : SteadyFor ctx held jumps _) b u b' hb hrun
  exact idle_currentPc.steady.bind fun _ => hlower.bind fun _ => steady_releaseAfter hb.1.top_le

theorem steady_leaveScope {jumps : List Nat} {path : ClosePath} {span : Span} :
    SteadyFor ctx held jumps (leaveScope ctx path span) :=
  steady_emitClose.bind fun _ => steady_emitExitedBindingCleanup.bind fun _ => steady_endDebugScope

theorem steady_lowerBlockStatements {jumps : List Nat} {block : ResolvedBlock}
    {statements : Lower Unit} (hstatements : SteadyFor ctx held jumps statements) :
    SteadyFor ctx held jumps (lowerBlockStatements ctx block statements) :=
  idle_beginDebugScope.steady.bind fun _ => steady_enterLabelFrame.bind fun _ =>
    hstatements.bind fun _ => idle_leaveLabelFrame.steady

/-- The jumps behind the clauses of an `if` may be patched later. -/
def ClausesSteady (ctx : BuilderContext) (held : BindingId → Bool)
    (clauses : Lower (List Nat × List Nat)) : Prop :=
  ∀ jumps, Ensures (SoundFor ctx held jumps) clauses
    fun result => SoundFor ctx held (result.1 ++ result.2 ++ jumps)

/-- All clauses, then the jumps to the join. -/
theorem ClausesSteady.join {clauses : Lower (List Nat × List Nat)} {span : Span}
    (h : ClausesSteady ctx held clauses) {jumps : List Nat} :
    SteadyFor ctx held jumps (do
      let (endPatches, falseToJoin) ← clauses
      let join ← emitCfgAnchor ctx span
      patchJumps ctx join (endPatches ++ falseToJoin)) := by
  refine Ensures.bind (h jumps) fun result => ?_
  have hpatch : SteadyFor ctx held (result.1 ++ result.2 ++ jumps) (do
      let join ← emitCfgAnchor ctx span
      patchJumps ctx join (result.1 ++ result.2)) :=
    steady_emitCfgAnchor.bind fun _ => steady_patchJumps (List.subset_append_left ..)
  exact hpatch.weaken (fun _ h => h) fun _ _ h => h.of_subset (List.subset_append_right ..)

/-- The last clause of an `if`. -/
theorem clausesSteady_last {elseBlock : Option (Span × Lower Unit)} {falseJump endJump : Nat}
    {jumps : List Nat} :
    (∀ e ∈ elseBlock, ∀ jumps, SteadyFor ctx held jumps e.2) →
    Ensures (SoundFor ctx held (endJump :: falseJump :: jumps))
      (match elseBlock with
        | some (elseSpan, lowerElse) => do
          let elseEntry ← emitCfgAnchor ctx elseSpan
          patchJump ctx falseJump elseEntry
          lowerElse
          return ([endJump], [])
        | none => return ([endJump], [falseJump]) : Lower (List Nat × List Nat))
      fun result => SoundFor ctx held (result.1 ++ result.2 ++ jumps) := by
  intro helse
  cases elseBlock with
  | none => exact Ensures.pure fun _ h => h
  | some e =>
    have hsteady : SteadyFor ctx held (endJump :: falseJump :: jumps) (do
        let elseEntry ← emitCfgAnchor ctx e.1
        patchJump ctx falseJump elseEntry
        e.2) :=
      steady_emitCfgAnchor.bind fun _ =>
        (steady_patchJump (List.mem_cons_of_mem _ List.mem_cons_self)).bind fun _ => helse e rfl _
    intro b result b' hb hrun
    simp only [bind_eq_ok, pure_eq_ok] at hrun
    obtain ⟨entry, b₁, h₁, u₂, b₂, h₂, u₃, b₃, h₃, rfl, rfl⟩ := hrun
    refine (hsteady b u₃ b₃ hb ?_).of_subset ?_
    · exact bind_eq_ok.mpr ⟨entry, b₁, h₁, bind_eq_ok.mpr ⟨u₂, b₂, h₂, h₃⟩⟩
    · exact List.cons_subset_cons _ (List.subset_cons_self ..)

mutual

/-- Every statement is steady, if its sites are safe. -/
theorem steady_lowerStatement (hctx : ctx.WellFormed) :
    ∀ (statement : ResolvedStmt) (jumps : List Nat),
      (∀ site ∈ statementSites ctx statement, site.safe ctx held = true) →
      SteadyFor ctx held jumps (lowerStatement ctx statement)
  | .empty _, _, _ => .pure
  | .label _ _ _, _, _ => steady_defineLabel
  | .ret _ _ _, _, h => steady_lowerReturn hctx h
  | .local _ _ _ _, _, h => steady_lowerLocal hctx h
  | .assignment _ _ _, _, h => steady_lowerAssignment hctx h
  | .call _ _, _, h => steady_lowerStatementCall hctx h
  | .break _ _, _, _ => steady_lowerBreak
  | .goto _ _ _ _, _, _ => steady_lowerGoto
  | .do body _, jumps, h => steady_lowerBlock hctx body jumps h
  | .if clauses none span, _, h =>
    (steady_lowerClauses hctx clauses span none h fun _ he => nomatch he).join
  | .if clauses (some body) span, _, h => by
    simp only [statementSites, List.mem_append] at h
    refine (steady_lowerClauses hctx clauses span _ (fun site hs => h site (.inl hs)) ?_).join
    rintro e ⟨⟩
    exact fun jumps => steady_lowerBlock hctx body jumps fun site hs => h site (.inr hs)
  | .while _ body _, _, h => by
    simp only [statementSites, List.mem_append] at h
    exact steady_lowerWhile hctx (fun site hs => h site (.inl hs))
      fun jumps => steady_lowerBlock hctx body jumps fun site hs => h site (.inr hs)
  | .repeat ⟨_, statements, _, _, _, _⟩ _ _, _, h => by
    simp only [statementSites, blockSites, List.mem_append] at h
    refine steady_lowerRepeat hctx (fun site hs => h site (.inl hs)) fun jumps =>
      steady_lowerBlockStatements ?_
    exact steady_lowerStatements hctx statements none 0 jumps .pure
      fun site hs => h site (.inr hs)
  | .numericFor _ _ _ none body _, _, h => by
    simp only [statementSites, List.mem_append] at h
    exact steady_lowerNumericFor hctx (fun site hs => h site (.inl (.inl hs)))
      (fun site hs => h site (.inl (.inr hs))) (fun _ he => nomatch he)
      fun jumps => steady_lowerBlock hctx body jumps fun site hs => h site (.inr hs)
  | .numericFor _ _ _ (some step) body _, _, h => by
    simp only [statementSites, List.mem_append] at h
    refine steady_lowerNumericFor hctx (fun site hs => h site (.inl (.inl (.inl hs))))
      (fun site hs => h site (.inl (.inl (.inr hs)))) ?_
      fun jumps => steady_lowerBlock hctx body jumps fun site hs => h site (.inr hs)
    rintro e ⟨⟩
    exact fun site hs => h site (.inl (.inr hs))
  | .genericFor _ _ _ body _ _, _, h => by
    simp only [statementSites, List.mem_append] at h
    exact steady_lowerGenericFor hctx (fun site hs => h site (.inl hs))
      fun jumps => steady_lowerBlock hctx body jumps fun site hs => h site (.inr hs)
  | .function _ _ _ _, _, h => steady_lowerFunction.bind fun _ => steady_storeTarget hctx h
  | .localFunction _ _ _, _, _ => steady_lowerLocalFunction
  | .global _ _, _, h => steady_lowerGlobal hctx h

theorem steady_lowerBlock (hctx : ctx.WellFormed) :
    ∀ (block : ResolvedBlock) (jumps : List Nat),
      (∀ site ∈ blockSites ctx block, site.safe ctx held = true) →
      SteadyFor ctx held jumps (lowerBlock ctx block)
  | ⟨_, statements, _, _, _, _⟩, jumps, h =>
    (steady_lowerBlockStatements
      (steady_lowerStatements hctx statements _ 0 jumps steady_leaveScope h)).bind fun _ =>
      .ite steady_leaveScope .pure

theorem steady_lowerStatements (hctx : ctx.WellFormed) {leave : Lower Unit} :
    ∀ (statements : List ResolvedStmt) (terminal : Option Nat) (index : Nat) (jumps : List Nat),
      SteadyFor ctx held jumps leave →
      (∀ site ∈ statementsSites ctx statements, site.safe ctx held = true) →
      SteadyFor ctx held jumps (lowerStatements ctx leave terminal index statements)
  | [], _, _, _, _, _ => .pure
  | statement :: rest, terminal, index, jumps, hleave, h => by
    simp only [statementsSites, List.mem_append] at h
    have hrest : SteadyFor ctx held jumps (do
        lowerOneStatement statement (lowerStatement ctx statement)
        lowerStatements ctx leave terminal (index + 1) rest) :=
      (steady_lowerOneStatement (steady_lowerStatement hctx statement jumps
        fun site hs => h site (.inl hs))).bind fun _ =>
        steady_lowerStatements hctx rest terminal (index + 1) jumps hleave
          fun site hs => h site (.inr hs)
    exact .ite (hleave.bind fun _ => hrest) hrest

theorem steady_lowerClauses (hctx : ctx.WellFormed) :
    ∀ (clauses : List ResolvedIfClause) (span : Span) (elseBlock : Option (Span × Lower Unit)),
      (∀ site ∈ clauseSites ctx clauses, site.safe ctx held = true) →
      (∀ e ∈ elseBlock, ∀ jumps, SteadyFor ctx held jumps e.2) →
      ClausesSteady ctx held (lowerClauses ctx span elseBlock clauses)
  | [], _, _, _, _ => fun _ => Ensures.pure fun _ h => h
  | ⟨condition, body⟩ :: rest, span, elseBlock, h, helse => by
    simp only [clauseSites, List.mem_append] at h
    intro jumps
    refine Ensures.bind (steady_lowerExpr hctx fun site hs => h site (.inl (.inl hs))) fun _ =>
      Ensures.bind ensures_emitJumpIfFalsePlaceholder fun falseJump =>
      Ensures.bind (steady_lowerBlock hctx body _ fun site hs => h site (.inl (.inr hs))) fun _ =>
      Ensures.bind ensures_emitJumpPlaceholder fun endJump =>
      Ensures.ite (fun _ => clausesSteady_last helse) fun _ => ?_
    refine Ensures.bind idle_currentOffset.steady fun _ =>
      Ensures.bind (steady_patchJump (List.mem_cons_of_mem _ List.mem_cons_self)) fun _ =>
      Ensures.bind (steady_lowerClauses hctx rest span elseBlock
        (fun site hs => h site (.inr hs)) helse _) fun result => Ensures.pure fun b hb => ?_
    refine hb.of_subset fun index hi => ?_
    simp only [List.cons_append, List.append_assoc, List.mem_cons, List.mem_append] at hi ⊢
    tauto

end

end RivetLua.Compiler
