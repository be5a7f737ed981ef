import Mathlib.Logic.Relation
import RivetLua.Bytecode.RoundTrip

namespace RivetLua.Bytecode

open RivetLua.Core Check Relation

/-!
# Bytecode — runs of a verified prototype

An abstract machine that keeps of a frame only the program counter and the base of the open
result.  It may follow any successor of an instruction, so its runs cover those of the
interpreter.

* `OpenStep` — the machine;
* `ReachedSafely` — what the interpreter relies on at an instruction it has reached;
* `dataflow_closed` — the states the worklist records are closed under the machine's steps;
* `verifyModule_reachedSafely` — every state of every run is safe, and its open result is the
  one that the verifier recorded.
-/

/-! ### The machine -/

/-- The program counter and the base of the open result, if one is live. -/
structure OpenState where
  pc : Nat
  openBase : Option Register
  deriving DecidableEq, Repr

/-- Where control may go from an instruction. -/
def Instruction.targets (pc : Nat) : Instruction → List Nat
  | .jump target => [target.toNat]
  | .jumpIfFalse _ target => [target.toNat, pc + 1]
  | .numericForPrepare _ _ _ _ exit => [exit.toNat, pc + 1]
  | .numericForNext _ _ _ _ target exit => [target.toNat, exit.toNat]
  | .ret _ _ | .tailCall _ _ _ => []
  | _ => [pc + 1]

/-- The open result behind an instruction: `ResultMode.all` leaves one, and a call with fixed
    results that takes its arguments up to the open result uses it up. -/
def Instruction.openAfter (openBase : Option Register) : Instruction → Option Register
  | .call base _ .all | .vararg base .all => some base
  | .call _ argCount (.fixed _) => if argCount = dynamicArguments then none else openBase
  | _ => openBase

/-- One step of the machine. -/
inductive OpenStep (prototype : BytecodePrototype) : OpenState → OpenState → Prop
  | follow {pc target : Nat} {openBase : Option Register} {entry : BytecodeInstruction}
      (hentry : prototype.instructions[pc]? = some entry)
      (htarget : target ∈ entry.instruction.targets pc) :
      OpenStep prototype ⟨pc, openBase⟩ ⟨target, entry.instruction.openAfter openBase⟩

/-- A run from the entry, with no open result. -/
abbrev OpenRun (prototype : BytecodePrototype) : OpenState → Prop :=
  ReflTransGen (OpenStep prototype) ⟨0, none⟩

/-! ### Operands -/

/-- The registers that hold the results of an instruction. -/
def ResultMode.registers (base : Register) : ResultMode → List Nat
  | .fixed count => base.toNat :: List.range' base.toNat count.toNat
  | .all => [base.toNat]

/-- The registers an instruction reads or writes, whole ranges included. -/
def Instruction.registers : Instruction → List Nat
  | .loadConst dest _ | .getUpvalue dest _ | .newTable dest | .closure dest _ => [dest.toNat]
  | .loadNil start count => List.range' start.toNat count.toNat
  | .move dest src | .unaryOp dest _ src => [dest.toNat, src.toNat]
  | .setUpvalue _ src => [src.toNat]
  | .getTable dest table key => [dest.toNat, table.toNat, key.toNat]
  | .setTable table key value => [table.toNat, key.toNat, value.toNat]
  | .binaryOp dest _ left right => [dest.toNat, left.toNat, right.toNat]
  | .jump _ => []
  | .jumpIfFalse condition _ => [condition.toNat]
  | .call base argCount resultMode | .tailCall base argCount resultMode =>
    (if argCount = dynamicArguments then [] else List.range' base.toNat (argCount.toNat + 1))
      ++ resultMode.registers base
  | .vararg base resultMode | .ret base resultMode => resultMode.registers base
  | .close base count => base.toNat :: List.range' base.toNat count.toNat
  | .numericForPrepare control limit step visible _
  | .numericForNext control limit step visible _ _ =>
    [control.toNat, limit.toNat, step.toNat, visible.toNat]

/-- The constant an instruction loads. -/
def Instruction.constant : Instruction → Option ConstId
  | .loadConst _ constant => some constant
  | _ => none

/-- The upvalue an instruction reads or writes. -/
def Instruction.upvalue : Instruction → Option UpvalueId
  | .getUpvalue _ upvalue | .setUpvalue upvalue _ => some upvalue
  | _ => none

/-- The prototype an instruction makes a closure of. -/
def Instruction.child : Instruction → Option ProtoId
  | .closure _ proto => some proto
  | _ => none

/-- Every operand of an instruction is in range. -/
structure OperandsInRange (module : BytecodeModule) (prototype : BytecodePrototype)
    (instruction : Instruction) : Prop where
  registers : ∀ register ∈ instruction.registers, register < prototype.registerCount.toNat
  constant : ∀ constant ∈ instruction.constant, constant.toNat < prototype.constants.length
  upvalue : ∀ upvalue ∈ instruction.upvalue, upvalue.toNat < prototype.upvalues.length
    ∧ ∃ candidate ∈ prototype.upvalues, candidate.id = upvalue
  child : ∀ proto ∈ instruction.child,
    ∃ candidate ∈ module.prototypes, candidate.id = proto ∧ candidate.parent = some prototype.id

/-- An instruction and the open result it is reached with go together. -/
structure OpenResultUsed (prototype : BytecodePrototype) (pc : Nat) (openBase : Option Register)
    (instruction : Instruction) : Prop where
  /-- A dynamic call finds an open result above its base, left by the nearest preceding
      instruction that is not a move into its fixed arguments. -/
  dynamic : ∀ base ∈ instruction.dynamicBase, ∃ producer, openBase = some producer
    ∧ base < producer ∧ producerBefore prototype base producer pc = .ok (some producer)
  /-- A return of all results finds an open result at or above its base. -/
  returned : ∀ base, instruction = .ret base .all →
    ∃ producer, openBase = some producer ∧ base ≤ producer
  /-- Apart from its consumers, only a close and a move below the open result see one. -/
  passed : ∀ producer ∈ openBase, instruction.dynamicBase ≠ none
    ∨ (∃ base, instruction = .ret base .all) ∨ (∃ base count, instruction = .close base count)
    ∨ ∃ dest src, instruction = .move dest src ∧ dest < producer ∧ src < producer

/-- What the interpreter relies on at an instruction it has reached. -/
structure ReachedSafely (module : BytecodeModule) (prototype : BytecodePrototype) (s : OpenState) :
    Prop where
  inside : s.pc < prototype.instructions.length
  operands : ∀ entry, prototype.instructions[s.pc]? = some entry →
    OperandsInRange module prototype entry.instruction
  openResult : ∀ entry, prototype.instructions[s.pc]? = some entry →
    OpenResultUsed prototype s.pc s.openBase entry.instruction

/-! ### Operands of a verified instruction -/

theorem registerInFrame_eq_ok {prototype : BytecodePrototype} {base : Register} {count : UInt16}
    {message : String} :
    registerInFrame prototype base count message = .ok () ↔
      base.toNat + count.toNat < prototype.registerCount.toNat := by
  rw [registerInFrame, reject_eq_ok, Nat.not_le]

/-- A range whose last register is in the frame is in the frame. -/
theorem range'_lt {base length limit : Nat} {count : UInt16} (hcount : length = count.toNat + 1)
    (h : base + count.toNat < limit) : ∀ register ∈ List.range' base length, register < limit := by
  intro register hregister
  rw [List.mem_range'_1] at hregister
  omega

theorem toNat_eq_pred_add_one {count : UInt16} (h : count ≠ 0) :
    count.toNat = (count - 1).toNat + 1 := by
  have hpos : count.toNat ≠ 0 := fun hzero => h (UInt16.toNat_inj.mp hzero)
  have hle : (1 : UInt16) ≤ count := by
    rw [UInt16.le_iff_toNat_le]
    exact Nat.one_le_iff_ne_zero.mpr hpos
  rw [UInt16.toNat_sub_of_le _ _ hle]
  show count.toNat = count.toNat - 1 + 1
  omega

theorem validateResultRange_ok {prototype : BytecodePrototype} {base : Register}
    {mode : ResultMode} (h : validateResultRange prototype base mode = .ok ()) :
    ∀ register ∈ mode.registers base, register < prototype.registerCount.toNat := by
  cases mode with
  | all =>
    rw [validateResultRange, registerInFrame_eq_ok] at h
    simpa [ResultMode.registers] using h
  | fixed count =>
    rw [validateResultRange] at h
    rw [ResultMode.registers]
    split at h
    · rename_i hzero
      rw [registerInFrame_eq_ok] at h
      subst hzero
      simpa using h
    · rename_i hcount
      rw [registerInFrame_eq_ok] at h
      rw [List.forall_mem_cons]
      exact ⟨by omega, range'_lt (toNat_eq_pred_add_one hcount) h⟩

/-- The identifiers of verified upvalues are positions of the table. -/
theorem validateUpvalues_lt {length : Nat} {seen : List UpvalueId}
    {upvalues : List BytecodeUpvalue} (h : validateUpvalues length seen upvalues = .ok ()) :
    ∀ upvalue ∈ upvalues, upvalue.id.toNat < length := by
  induction upvalues generalizing seen with
  | nil => simp
  | cons first rest ih =>
    rw [validateUpvalues, then_eq_ok, reject_eq_ok] at h
    rw [List.forall_mem_cons]
    exact ⟨by omega, ih h.2⟩

theorem validateMetadata_upvalues {prototype : BytecodePrototype}
    (h : validateMetadata prototype = .ok ()) :
    ∀ upvalue ∈ prototype.upvalues, upvalue.id.toNat < prototype.upvalues.length := by
  simp only [validateMetadata, then_eq_ok] at h
  exact validateUpvalues_lt h.2.2.1

theorem requireUpvalue_ok {prototype : BytecodePrototype}
    (hmetadata : validateMetadata prototype = .ok ()) {upvalue : UpvalueId}
    (h : requireUpvalue prototype upvalue = .ok ()) :
    upvalue.toNat < prototype.upvalues.length
      ∧ ∃ candidate ∈ prototype.upvalues, candidate.id = upvalue := by
  rw [requireUpvalue, reject_eq_ok, not_not] at h
  obtain ⟨candidate, hmem, rfl⟩ := h
  exact ⟨validateMetadata_upvalues hmetadata candidate hmem, candidate, hmem, rfl⟩

theorem validateOperands_registers {prototype : BytecodePrototype} {module : BytecodeModule}
    {index : Nat} {instruction : Instruction}
    (h : validateOperands prototype module index instruction = .ok ()) :
    ∀ register ∈ instruction.registers, register < prototype.registerCount.toNat := by
  have hwindow : ∀ {base : Register} {argCount : UInt16} {mode : ResultMode},
      validateOperands.arguments prototype base argCount = .ok () →
      validateResultRange prototype base mode = .ok () →
      ∀ register ∈ (if argCount = dynamicArguments then []
          else List.range' base.toNat (argCount.toNat + 1)) ++ mode.registers base,
        register < prototype.registerCount.toNat := by
    intro base argCount mode harguments hresults register hregister
    rcases List.mem_append.mp hregister with hargument | hresult
    · rw [validateOperands.arguments] at harguments
      split at harguments
      · rw [if_pos ‹_›] at hargument
        cases hargument
      · rw [if_neg ‹_›] at hargument
        exact range'_lt rfl (registerInFrame_eq_ok.mp harguments) register hargument
    · exact validateResultRange_ok hresults register hresult
  cases instruction
  case call base argCount mode =>
    simp only [validateOperands, then_eq_ok] at h
    exact hwindow h.1 h.2
  case tailCall base argCount mode =>
    simp only [validateOperands, then_eq_ok] at h
    exact hwindow h.1 h.2
  case vararg base mode =>
    simp only [validateOperands, then_eq_ok] at h
    exact validateResultRange_ok h.2.2
  case ret base mode =>
    simp only [validateOperands, then_eq_ok] at h
    exact validateResultRange_ok h.2
  case loadNil start count =>
    simp only [validateOperands, then_eq_ok, reject_eq_ok] at h
    exact range'_lt (toNat_eq_pred_add_one h.1) (registerInFrame_eq_ok.mp h.2)
  case close base count =>
    rw [Instruction.registers, List.forall_mem_cons]
    rw [validateOperands] at h
    split at h
    · -- the end of a scope: one register, whose variable a child captured
      rename_i hzero
      simp only [then_eq_ok, validateOperands.register, registerInFrame_eq_ok] at h
      subst hzero
      exact ⟨h.1, by simp⟩
    · rename_i hcount
      rw [validateOperands.range, registerInFrame_eq_ok] at h
      exact ⟨by omega, range'_lt (toNat_eq_pred_add_one hcount) h⟩
  case jump target => simp [Instruction.registers]
  all_goals
    simp only [validateOperands, validateNumericForRegisters, each, then_eq_ok,
      validateOperands.register, registerInFrame_eq_ok, UInt16.toNat_zero, Nat.add_zero] at h
    simp only [Instruction.registers, List.forall_mem_cons, List.not_mem_nil, false_imp_iff,
      implies_true, and_true]
    tauto

theorem validateOperands_inRange {prototype : BytecodePrototype} {module : BytecodeModule}
    {index : Nat} {instruction : Instruction}
    (hmetadata : validateMetadata prototype = .ok ())
    (h : validateOperands prototype module index instruction = .ok ()) :
    OperandsInRange module prototype instruction := by
  refine ⟨validateOperands_registers h, ?_, ?_, ?_⟩
  · intro constant hconstant
    cases instruction <;> simp only [Instruction.constant, Option.mem_def, reduceCtorEq] at hconstant
    simp only [validateOperands, then_eq_ok, reject_eq_ok, Nat.not_le] at h
    cases hconstant
    exact h.2
  · intro upvalue hupvalue
    cases instruction <;> simp only [Instruction.upvalue, Option.mem_def, reduceCtorEq] at hupvalue
    all_goals
      simp only [validateOperands, then_eq_ok] at h
      cases hupvalue
      exact requireUpvalue_ok hmetadata (by tauto)
  · intro proto hproto
    cases instruction <;> simp only [Instruction.child, Option.mem_def, reduceCtorEq] at hproto
    simp only [validateOperands, then_eq_ok, reject_eq_ok, not_not] at h
    cases hproto
    exact h.2

/-! ### One visited instruction -/

theorem validateDynamicConsumer_eq_ok {prototype : BytecodePrototype} {index : Nat}
    {openBase : Option Register} {instruction : Instruction} :
    validateDynamicConsumer prototype index openBase instruction = .ok () ↔
      ∀ base ∈ instruction.dynamicBase, ∃ producer, openBase = some producer
        ∧ base < producer ∧ producerBefore prototype base producer index = .ok (some producer) := by
  rw [validateDynamicConsumer]
  split
  · rename_i hnone
    simp [hnone]
  · rename_i outerBase hsome
    simp only [hsome, Option.mem_def, Option.some.injEq, forall_eq', bind_eq_ok, some?_eq_ok,
      reject_eq_ok, not_or, not_not, UInt16.not_le]
    constructor
    · rintro ⟨producer, hopen, source, hsource, rfl, hlt⟩
      exact ⟨producer, hopen, hlt, hsource⟩
    · rintro ⟨producer, hopen, hlt, hsource⟩
      exact ⟨producer, hopen, some producer, hsource, rfl, hlt⟩

theorem successors_eq_ok {count index : Nat} {instruction : Instruction} {successors : List Nat}
    (h : instruction.successors count index = .ok successors) :
    successors = instruction.targets index := by
  cases instruction <;>
    simp only [Instruction.successors, requireFallThrough, bind_eq_ok, Except.ok.injEq] at h <;>
    simp only [Instruction.targets]
  all_goals grind

/-- An instruction with successors hands on what the machine hands on. -/
theorem nextOpen_eq_ok {openBase next : Option Register} {index target : Nat}
    {instruction : Instruction} (h : instruction.nextOpen openBase = .ok next)
    (htarget : target ∈ instruction.targets index) : next = instruction.openAfter openBase := by
  cases instruction
  case ret => cases htarget
  case tailCall => cases htarget
  case call base argCount mode =>
    cases mode <;> simp only [Instruction.nextOpen, Except.ok.injEq] at h <;>
      simp [Instruction.openAfter, ← h]
  case vararg base mode =>
    cases mode <;> simp only [Instruction.nextOpen, Except.ok.injEq] at h <;>
      simp [Instruction.openAfter, ← h]
  all_goals
    simp only [Instruction.nextOpen, Except.ok.injEq] at h
    exact h.symm

/-- What the checks at one instruction give. -/
theorem visitInstruction_eq_ok {prototype : BytecodePrototype} {index : Nat}
    {openBase next : Option Register} {instruction : Instruction} {successors : List Nat}
    (h : visitInstruction prototype index openBase instruction = .ok (next, successors)) :
    OpenResultUsed prototype index openBase instruction
      ∧ successors = instruction.targets index
      ∧ ∀ target ∈ successors, next = instruction.openAfter openBase := by
  simp only [visitInstruction, bind_eq_ok, reject_eq_ok, Except.ok.injEq, Prod.mk.injEq] at h
  obtain ⟨_, hdynamic, _, hpassed, _, hnext, _, hsuccessors, rfl, rfl⟩ := h
  have htargets := successors_eq_ok hsuccessors
  refine ⟨⟨validateDynamicConsumer_eq_ok.mp hdynamic, ?_, ?_⟩, htargets, ?_⟩
  · rintro base rfl
    rcases openBase with _ | producer
    · cases hnext
    · rw [Instruction.nextOpen] at hnext
      split at hnext
      · exact ⟨producer, rfl, ‹_›⟩
      · cases hnext
  · intro producer hproducer
    cases hproducer
    by_cases hdyn : instruction.dynamicBase = none
    · right
      cases instruction
      case close base count => exact .inr (.inl ⟨base, count, rfl⟩)
      case move dest src =>
        refine .inr (.inr ⟨dest, src, rfl, ?_⟩)
        simpa [Instruction.toleratesOpen, Instruction.dynamicBase,
          Instruction.topPreservingMove] using hpassed
      case ret base mode =>
        cases mode with
        | all => exact .inl ⟨base, rfl⟩
        | fixed count =>
          exact absurd ⟨by simp, rfl, rfl, rfl⟩ hpassed
      all_goals
        exact absurd ⟨by simp, rfl, hdyn, rfl⟩ hpassed
    · exact .inl hdyn
  · intro target htarget
    rw [htargets] at htarget
    exact nextOpen_eq_ok hnext htarget

/-! ### The worklist -/

/-- The open result recorded for an instruction. -/
def DataflowStates.Recorded (states : DataflowStates) (index : Nat) (openBase : Option Register) :
    Prop :=
  states[index]? = some (some openBase)

/-- What handing an open result to the successors does: recorded states stay, every successor
    has the open result recorded, and what is new is on the worklist. -/
structure Propagated (next : Option Register) (successors : List Nat)
    (states states' : DataflowStates) (worklist worklist' : List Nat) : Prop where
  keeps : ∀ index state, states.Recorded index state → states'.Recorded index state
  records : ∀ successor ∈ successors, states'.Recorded successor next
  fresh : ∀ index state, states'.Recorded index state →
    states.Recorded index state ∨ index ∈ worklist'
  pending : ∀ index ∈ worklist, index ∈ worklist'
  /-- Unrecorded states and pending instructions together stay as many. -/
  work : states'.count none + worklist'.length = states.count none + worklist.length

theorem count_set_none {states : DataflowStates} {index : Nat} (state : Option Register)
    (h : states[index]? = some none) :
    (states.set index (some state)).count none + 1 = states.count none := by
  obtain ⟨hlt, hget⟩ := List.getElem?_eq_some_iff.mp h
  have hpos : 0 < states.count none := List.count_pos_iff.mpr (hget ▸ List.getElem_mem hlt)
  rw [List.count_set hlt]
  simp [hget]
  omega

theorem propagate_propagated {limits : VerifyLimits} {next : Option Register}
    {successors : List Nat} {states states' : DataflowStates} {worklist worklist' : List Nat}
    (h : propagate limits next successors states worklist = .ok (states', worklist')) :
    Propagated next successors states states' worklist worklist' := by
  induction successors generalizing states worklist with
  | nil =>
    cases h
    exact ⟨fun _ _ h => h, by simp, fun _ _ h => .inl h, fun _ h => h, rfl⟩
  | cons successor rest ih =>
    rw [propagate] at h
    split at h
    · cases h
    · -- reached before: the recorded open result has to agree
      rename_i existing hstate
      split at h
      · rename_i hsame
        subst hsame
        have hrest := ih h
        refine ⟨hrest.keeps, ?_, hrest.fresh, hrest.pending, hrest.work⟩
        rw [List.forall_mem_cons]
        exact ⟨hrest.keeps _ _ hstate, hrest.records⟩
      · cases h
    · -- reached for the first time
      rename_i hstate
      rw [then_eq_ok] at h
      have hrest := ih h.2
      have hlt := (List.getElem?_eq_some_iff.mp hstate).1
      have hself : DataflowStates.Recorded (states.set successor (some next)) successor next :=
        List.getElem?_set_self hlt
      refine ⟨?_, ?_, ?_, ?_, ?_⟩
      · intro index state hindex
        have hne : successor ≠ index := by
          rintro rfl
          rw [DataflowStates.Recorded, hstate] at hindex
          cases hindex
        exact hrest.keeps _ _ ((List.getElem?_set_ne hne).trans hindex)
      · rw [List.forall_mem_cons]
        exact ⟨hrest.keeps _ _ hself, hrest.records⟩
      · intro index state hindex
        rcases hrest.fresh _ _ hindex with hset | hmem
        · by_cases hne : successor = index
          · subst hne
            exact .inr (hrest.pending _ List.mem_cons_self)
          · exact .inl ((List.getElem?_set_ne hne).symm.trans hset)
        · exact .inr hmem
      · intro index hindex
        exact hrest.pending _ (List.mem_cons_of_mem _ hindex)
      · have hwork := hrest.work
        have hcount := count_set_none next hstate
        rw [List.length_cons] at hwork
        omega

/-- A recorded state that has been visited: its instruction passed its checks and handed its
    open result to every successor. -/
def Visited (prototype : BytecodePrototype) (states : DataflowStates) (index : Nat)
    (openBase : Option Register) : Prop :=
  ∃ entry next successors, prototype.instructions[index]? = some entry
    ∧ visitInstruction prototype index openBase entry.instruction = .ok (next, successors)
    ∧ ∀ successor ∈ successors, states.Recorded successor next

/-- The loop invariant: what is recorded is visited or pending. -/
def VisitedOrPending (prototype : BytecodePrototype) (states : DataflowStates)
    (worklist : List Nat) : Prop :=
  ∀ index openBase, states.Recorded index openBase →
    index ∈ worklist ∨ Visited prototype states index openBase

theorem Visited.mono {prototype : BytecodePrototype} {states states' : DataflowStates}
    {index : Nat} {openBase : Option Register} (h : Visited prototype states index openBase)
    (hkeeps : ∀ index state, states.Recorded index state → states'.Recorded index state) : Visited prototype states' index openBase := by
  obtain ⟨entry, next, successors, hentry, hvisit, hsuccessors⟩ := h
  exact ⟨entry, next, successors, hentry, hvisit, fun s hs => hkeeps _ _ (hsuccessors s hs)⟩

/-- When the worklist runs empty, everything recorded is visited. -/
theorem dataflow_visited {prototype : BytecodePrototype} {limits : VerifyLimits} {rounds : Nat}
    {states result : DataflowStates} {worklist : List Nat}
    (h : dataflow prototype limits rounds states worklist = .ok result)
    (hrounds : states.count none + worklist.length ≤ rounds)
    (hinv : VisitedOrPending prototype states worklist) :
    (∀ index state, states.Recorded index state → result.Recorded index state)
      ∧ VisitedOrPending prototype result [] := by
  induction rounds generalizing states worklist with
  | zero =>
    have hempty : worklist = [] := List.eq_nil_of_length_eq_zero (by omega)
    subst hempty
    cases h
    exact ⟨fun _ _ h => h, hinv⟩
  | succ rounds ih =>
    rcases worklist with _ | ⟨index, worklist⟩
    · cases h
      exact ⟨fun _ _ h => h, hinv⟩
    · rw [dataflow] at h
      split at h
      · rename_i openBase entry hstate hentry
        simp only [bind_eq_ok, Prod.exists] at h
        obtain ⟨next, successors, hvisit, states', worklist', hpropagate, h⟩ := h
        have hp := propagate_propagated hpropagate
        have hinv' : VisitedOrPending prototype states' worklist' := by
          intro i o hio
          rcases hp.fresh i o hio with hold | hnew
          · rcases hinv i o hold with hmem | hvisited
            · rcases List.mem_cons.mp hmem with rfl | hmem
              · -- the instruction visited in this round
                right
                unfold DataflowStates.Recorded at hold
                rw [hold] at hstate
                cases hstate
                exact ⟨entry, next, successors, hentry, hvisit, hp.records⟩
              · exact .inl (hp.pending i hmem)
            · exact .inr (hvisited.mono hp.keeps)
          · exact .inl hnew
        have hwork := hp.work
        rw [List.length_cons] at hrounds
        obtain ⟨hkeeps, hdone⟩ := ih h (by omega) hinv'
        exact ⟨fun i o hio => hkeeps i o (hp.keeps i o hio), hdone⟩
      · cases h

/-- The states with which the worklist starts. -/
def BytecodePrototype.entryStates (prototype : BytecodePrototype) : DataflowStates :=
  (List.replicate prototype.instructions.length none).set 0 (some none)

/-- The worklist of a verified prototype ends with the entry recorded and everything recorded
    visited. -/
theorem dataflow_closed {prototype : BytecodePrototype} {limits : VerifyLimits}
    (h : verifyControlAndDataflow prototype limits = .ok ()) :
    ∃ states, dataflow prototype limits prototype.instructions.length prototype.entryStates [0]
        = .ok states
      ∧ states.Recorded 0 none
      ∧ ∀ index openBase, states.Recorded index openBase →
        Visited prototype states index openBase := by
  simp only [verifyControlAndDataflow, reject_eq_ok, bind_eq_ok] at h
  obtain ⟨_, hnonempty, _, -, _, -, states, hdataflow, -⟩ := h
  have hlength : 0 < prototype.instructions.length := List.length_pos_iff.mpr hnonempty
  have hentry : (List.replicate prototype.instructions.length
      (none : Option (Option Register)))[0]? = some none := by
    simp [hlength]
  have hcount := count_set_none none hentry
  rw [List.count_replicate_self] at hcount
  have hinv : VisitedOrPending prototype prototype.entryStates [0] := by
    intro index openBase hindex
    by_cases hzero : 0 = index
    · exact .inl (List.mem_singleton.mpr hzero.symm)
    · unfold DataflowStates.Recorded BytecodePrototype.entryStates at hindex
      rw [List.getElem?_set_ne hzero, List.getElem?_replicate] at hindex
      split at hindex <;> cases hindex
  have hrounds : prototype.entryStates.count none + [0].length
      ≤ prototype.instructions.length := by
    rw [BytecodePrototype.entryStates, List.length_singleton]
    omega
  obtain ⟨hkeeps, hdone⟩ := dataflow_visited hdataflow hrounds hinv
  refine ⟨states, hdataflow, hkeeps 0 none ?_, ?_⟩
  · exact List.getElem?_set_self (by simpa using hlength)
  · intro index openBase hindex
    rcases hdone index openBase hindex with hmem | hvisited
    · cases hmem
    · exact hvisited

/-! ### Every run -/

/-- One step keeps a state among the recorded ones. -/
theorem OpenStep.recorded {prototype : BytecodePrototype} {states : DataflowStates}
    (hclosed : ∀ index openBase, states.Recorded index openBase →
      Visited prototype states index openBase)
    {s s' : OpenState} (hstep : OpenStep prototype s s') (hs : states.Recorded s.pc s.openBase) :
    states.Recorded s'.pc s'.openBase := by
  obtain ⟨hentry, htarget⟩ := hstep
  obtain ⟨entry, next, successors, hentry', hvisit, hsuccessors⟩ := hclosed _ _ hs
  cases hentry.symm.trans hentry'
  obtain ⟨-, htargets, hnext⟩ := visitInstruction_eq_ok hvisit
  rw [← htargets] at htarget
  rw [← hnext _ htarget]
  exact hsuccessors _ htarget

/-- Every state of a run is recorded. -/
theorem OpenRun.recorded {prototype : BytecodePrototype} {states : DataflowStates}
    (hentry : states.Recorded 0 none)
    (hclosed : ∀ index openBase, states.Recorded index openBase →
      Visited prototype states index openBase)
    {s : OpenState} (hrun : OpenRun prototype s) : states.Recorded s.pc s.openBase := by
  induction hrun with
  | refl => exact hentry
  | tail _ hstep ih => exact hstep.recorded hclosed ih

theorem Visited.reachedSafely {alloc : Allocator} {prototype : BytecodePrototype}
    {module : BytecodeModule} {limits : VerifyLimits}
    (hverified : PrototypeVerified alloc prototype module limits) {states : DataflowStates}
    {s : OpenState} (h : Visited prototype states s.pc s.openBase) :
    ReachedSafely module prototype s := by
  obtain ⟨entry, next, successors, hentry, hvisit, -⟩ := h
  refine ⟨(List.getElem?_eq_some_iff.mp hentry).1, ?_, ?_⟩
  · intro entry' hentry'
    have hshape := (validateInstructions_eq_ok.mp hverified.instructions _ _ hentry').2
    rw [validateInstructionShape, then_eq_ok] at hshape
    exact validateOperands_inRange hverified.metadata hshape.1
  · intro entry' hentry'
    cases hentry.symm.trans hentry'
    exact (visitInstruction_eq_ok hvisit).1

theorem verifyPrototypes_verified {alloc : Allocator} {module : BytecodeModule}
    {limits : VerifyLimits} {totals : VerifyTotals} {prototypes : List BytecodePrototype}
    (h : verifyPrototypes alloc module limits totals prototypes = .ok ()) :
    ∀ prototype ∈ prototypes, PrototypeVerified alloc prototype module limits := by
  induction prototypes generalizing totals with
  | nil => simp
  | cons first rest ih =>
    simp only [verifyPrototypes, then_eq_ok] at h
    obtain ⟨-, -, -, -, hfirst, hrest⟩ := h
    rw [List.forall_mem_cons]
    exact ⟨validatePrototype_eq_ok.mp hfirst, ih hrest⟩

/-- **Soundness of the verifier.** In every run of every prototype of a verified module the
    program counter stays inside the code, the operands met are in range, an open result is there
    where one is consumed, and the open result at an instruction is the one the verifier
    recorded for it, on every path. -/
theorem verifyModule_reachedSafely {alloc : Allocator} {module : BytecodeModule}
    {expectedProfile : LuaProfile} {limits : VerifyLimits} {verified : VerifiedModule}
    (h : verifyModule alloc module expectedProfile limits = .ok verified)
    {prototype : BytecodePrototype} (hprototype : prototype ∈ module.prototypes) :
    ∃ states, dataflow prototype limits prototype.instructions.length prototype.entryStates [0]
        = .ok states
      ∧ ∀ s, OpenRun prototype s →
        states.Recorded s.pc s.openBase ∧ ReachedSafely module prototype s := by
  obtain ⟨hcheck, -⟩ := verifyModule_eq_ok.mp h
  simp only [checkModule, then_eq_ok] at hcheck
  obtain ⟨-, -, -, -, -, -, hprototypes, -⟩ := hcheck
  have hverified := verifyPrototypes_verified hprototypes prototype hprototype
  obtain ⟨states, hdataflow, hentry, hclosed⟩ := dataflow_closed hverified.dataflow
  refine ⟨states, hdataflow, ?_⟩
  intro s hrun
  have hrecorded := OpenRun.recorded hentry hclosed hrun
  exact ⟨hrecorded, (hclosed _ _ hrecorded).reachedSafely hverified⟩

theorem verifyModule_reachedSafely_emptyChunk :
    ∃ states, dataflow (returnPrototype 0 none .rootExternal []) .default
        (returnPrototype 0 none .rootExternal []).instructions.length
        (returnPrototype 0 none .rootExternal []).entryStates [0] = .ok states
      ∧ ∀ s, OpenRun (returnPrototype 0 none .rootExternal []) s →
        states.Recorded s.pc s.openBase
          ∧ ReachedSafely emptyChunk (returnPrototype 0 none .rootExternal []) s := by
  have h : verifyModule .exact emptyChunk .lua54 .default = .ok ⟨emptyChunk, 4⟩ := by
    decide +kernel
  exact verifyModule_reachedSafely h (List.mem_singleton.mpr rfl)

/-- `return x, ...` with `x` in register 0: the move into the fixed part of the window runs
    while the open result is live. -/
def returnOpenPrototype : BytecodePrototype :=
  { returnPrototype 0 none .rootExternal [] with
    registerCount := 3
    isVariadic := true
    instructions := [⟨.vararg 2 .all, ⟨0, 0⟩, none⟩, ⟨.move 1 0, ⟨0, 0⟩, none⟩,
      ⟨.ret 1 .all, ⟨0, 0⟩, none⟩] }

/-- A verified prototype and a run that reaches a move with an open result live. -/
theorem openRun_returnOpenPrototype :
    verifyModule .exact (returnModule [returnOpenPrototype]) .lua54 .default
        = .ok ⟨returnModule [returnOpenPrototype], 6⟩
      ∧ OpenRun returnOpenPrototype ⟨1, some 2⟩
      ∧ returnOpenPrototype.instructions[1]? = some ⟨.move 1 0, ⟨0, 0⟩, none⟩ := by
  refine ⟨by decide +kernel, ?_, rfl⟩
  have hstep : OpenStep returnOpenPrototype ⟨0, none⟩ ⟨1, some 2⟩ :=
    @OpenStep.follow _ 0 1 none ⟨.vararg 2 .all, ⟨0, 0⟩, none⟩ rfl (List.mem_singleton.mpr rfl)
  exact .single hstep

end RivetLua.Bytecode
