import RivetLua.Lib.StateExcept
import RivetLua.Compiler.CallSites
import RivetLua.Compiler.RegisterMachine

namespace RivetLua.Compiler

open StateExcept
open RivetLua.Bytecode (Register Instruction InstructionOffset)

/-!
# Compiler — laws of the builder

Whether windows hold depends on a part of the builder only: its code, its next register, its
windows and the addresses that are still to be patched.

* `Core`, `Builder.core` — that part;
* `emit_core`, `allocate_core`, … — what each operation of the builder does to it;
* the operations on debug records leave it alone.
-/

/-! ### The core of a builder -/

/-- The part of a builder that windows depend on. -/
structure Core where
  code : List Instruction
  next : Nat
  windows : List Window
  listWrites : List Nat
  waiting : List Nat

/-- The address of the next instruction. -/
def Core.pc (c : Core) : Nat := c.code.length

/-- One more instruction. -/
def Core.push (c : Core) (instruction : Instruction) : Core :=
  { c with code := c.code ++ [instruction] }

/-- The code of a builder. -/
def Builder.code (b : Builder) : List Instruction := b.instructions.map IrInstruction.instruction

/-- The addresses that wait for a patch. -/
def Builder.waiting (b : Builder) : List Nat :=
  b.pendingGotos.map PendingGoto.instruction ++ b.loops.flatMap LoopFrame.breakPatches
    ++ b.callStatementCleanups.map Prod.fst

/-- The core of a builder. -/
def Builder.core (b : Builder) : Core where
  code := b.code
  next := b.nextRegister.toNat
  windows := b.windows
  listWrites := b.nativeListWrites.map fun entry => entry.callPc.toNat
  waiting := b.waiting

@[simp] theorem Builder.core_pc (b : Builder) : b.core.pc = b.pc := by
  simp [Builder.core, Core.pc, Builder.code, Builder.pc]

@[simp] theorem Core.push_pc (c : Core) (i : Instruction) : (c.push i).pc = c.pc + 1 := by
  simp [Core.push, Core.pc]

@[simp] theorem Core.push_code (c : Core) (i : Instruction) : (c.push i).code = c.code ++ [i] := rfl

@[simp] theorem Core.push_next (c : Core) (i : Instruction) : (c.push i).next = c.next := rfl

@[simp] theorem Core.push_windows (c : Core) (i : Instruction) :
    (c.push i).windows = c.windows := rfl

@[simp] theorem Core.push_listWrites (c : Core) (i : Instruction) :
    (c.push i).listWrites = c.listWrites := rfl

@[simp] theorem Core.push_waiting (c : Core) (i : Instruction) :
    (c.push i).waiting = c.waiting := rfl

/-! ### Operations that leave the core alone -/

/-- A step that leaves the core alone. -/
def Idle {α : Type} (m : Lower α) : Prop := Leaves Builder.core m

theorem idle_stop {α : Type} {span : Span} {message : String} :
    Idle (stop span message : Lower α) := by
  intro b a b' h
  cases h

theorem idle_stopIf {c : Prop} [Decidable c] {span : Span} {message : String} :
    Idle (stopIf c span message) := by
  intro b a b' h
  unfold stopIf at h
  split at h
  · cases h
  · cases h
    rfl

theorem orStop_eq_ok {α : Type} {value : Option α} {span : Span} {message : String}
    {b b' : Builder} {a : α} (h : orStop value span message b = .ok (a, b')) :
    value = some a ∧ b' = b := by
  unfold orStop at h
  split at h
  · cases h
    exact ⟨rfl, rfl⟩
  · cases h

theorem idle_orStop {α : Type} {value : Option α} {span : Span} {message : String} :
    Idle (orStop value span message) := by
  intro b a b' h
  rw [(orStop_eq_ok h).2]

theorem idle_toU32 {n : Nat} {span : Span} {message : String} : Idle (toU32 n span message) :=
  idle_orStop

theorem idle_toU16 {n : Nat} {span : Span} {message : String} : Idle (toU16 n span message) :=
  idle_orStop

theorem idle_registerOffset {base : Register} {offset : Nat} {span : Span} :
    Idle (registerOffset base offset span) :=
  idle_toU16

theorem toU32_eq_ok {n : Nat} {span : Span} {message : String} {b b' : Builder} {a : UInt32}
    (h : toU32 n span message b = .ok (a, b')) : a.toNat = n ∧ b' = b := by
  obtain ⟨hvalue, rfl⟩ := orStop_eq_ok h
  split at hvalue
  · next hn =>
    cases hvalue
    exact ⟨UInt32.toNat_ofNat_of_lt' hn, rfl⟩
  · cases hvalue

theorem toU16_eq_ok {n : Nat} {span : Span} {message : String} {b b' : Builder} {a : UInt16}
    (h : toU16 n span message b = .ok (a, b')) : a.toNat = n ∧ b' = b := by
  obtain ⟨hvalue, rfl⟩ := orStop_eq_ok h
  split at hvalue
  · next hn =>
    cases hvalue
    exact ⟨UInt16.toNat_ofNat_of_lt' hn, rfl⟩
  · cases hvalue

theorem registerOffset_eq_ok {base : Register} {offset : Nat} {span : Span} {b b' : Builder}
    {r : Register} (h : registerOffset base offset span b = .ok (r, b')) :
    r.toNat = base.toNat + offset ∧ b' = b :=
  toU16_eq_ok h

theorem currentPc_eq_ok {b b' : Builder} {pc : Nat} (h : currentPc b = .ok (pc, b')) :
    pc = b.pc ∧ b' = b := by
  cases h
  exact ⟨rfl, rfl⟩

theorem idle_currentPc : Idle currentPc := by
  intro b a b' h
  rw [(currentPc_eq_ok h).2]

theorem currentOffset_eq_ok {span : Span} {b b' : Builder} {offset : InstructionOffset}
    (h : currentOffset span b = .ok (offset, b')) : offset.toNat = b.pc ∧ b' = b :=
  toU32_eq_ok h

theorem idle_currentOffset {span : Span} : Idle (currentOffset span) :=
  Leaves.get fun _ => idle_toU32

theorem idle_constant {value : IrConstant} {span : Span} : Idle (constant value span) :=
  Leaves.get fun _ => idle_toU32.bind fun _ => Leaves.bind (.modify fun _ => rfl) fun _ => .pure

theorem idle_bindingRegister {ctx : BuilderContext} {binding : BindingId} {span : Span} :
    Idle (bindingRegister ctx binding span) :=
  idle_orStop

theorem idle_markDynamicTop {base : Register} : Idle (markDynamicTop base) :=
  Leaves.modify fun _ => rfl

theorem idle_recordTemporaries {ctx : BuilderContext} {span : Span} {pc : InstructionOffset} :
    ∀ entries, Idle (recordTemporaries ctx span pc entries)
  | [] => Leaves.pure
  | (_, _) :: rest =>
    Leaves.get fun _ => idle_stopIf.bind fun _ => idle_toU16.bind fun _ =>
      Leaves.bind (.modify fun _ => rfl) fun _ => idle_recordTemporaries rest

theorem idle_markLastNonCounted {ctx : BuilderContext} {span : Span} :
    Idle (markLastNonCounted ctx span) :=
  Leaves.get fun _ => idle_stopIf.bind fun _ => Leaves.get fun _ => idle_stopIf.bind fun _ =>
    Leaves.get fun _ => idle_toU32.bind fun _ => Leaves.get fun _ => idle_stopIf.bind fun _ =>
      Leaves.modify fun _ => rfl

theorem idle_respanFrom {start : Nat} {rewrite : Span → Span} : Idle (respanFrom start rewrite) := by
  refine Leaves.modify fun b => ?_
  have hcode : (b.instructions.take start ++ (b.instructions.drop start).map fun entry =>
      IrInstruction.mk entry.instruction (rewrite entry.span) entry.closePath).map
        IrInstruction.instruction = b.code := by
    rw [List.map_append, List.map_map]
    show List.map IrInstruction.instruction _ ++ List.map IrInstruction.instruction _ = b.code
    rw [← List.map_append, List.take_append_drop]
    rfl
  exact congrArg (fun code => { b.core with code := code }) hcode

theorem idle_pushPendingExpression {ctx : BuilderContext} {register : Register} {span : Span} :
    Idle (pushPendingExpression ctx register span) :=
  Leaves.get fun _ => Leaves.ite .pure
    (idle_stopIf.bind fun _ => Leaves.bind (.modify fun _ => rfl) fun _ => .pure)

theorem idle_pushPendingExpressions {ctx : BuilderContext} {registers : List Register}
    {span : Span} : Idle (pushPendingExpressions ctx registers span) :=
  Leaves.forM (fun _ => idle_pushPendingExpression.bind fun _ => .pure) registers

theorem idle_truncatePending {length : Nat} : Idle (truncatePending length) :=
  Leaves.modify fun _ => rfl

theorem idle_pushWindow {ctx : BuilderContext} {base : Register} {span : Span} :
    ∀ offset count, Idle (pushWindow ctx base span offset count)
  | _, 0 => Leaves.pure
  | offset, count + 1 =>
    idle_registerOffset.bind fun _ => idle_pushPendingExpression.bind fun _ =>
      idle_pushWindow (offset + 1) count

theorem idle_protoFor {prototypes : List (FunctionId × RivetLua.Bytecode.ProtoId)}
    {function : FunctionId} {span : Span} : Idle (protoFor prototypes function span) :=
  idle_orStop

/-! ### Registers and instructions -/

theorem allocate_eq_ok {ctx : BuilderContext} {span : Span} {b b' : Builder} {r : Register}
    (h : allocate ctx span b = .ok (r, b')) :
    r.toNat = b.core.next ∧ b'.core = { b.core with next := b.core.next + 1 } := by
  unfold allocate at h
  split at h
  · cases h
  · next hlimit =>
    cases h
    have hlt : b.nextRegister.toNat < ctx.limits.maxRegisters.toNat := by
      rwa [UInt16.not_le, UInt16.lt_iff_toNat_lt] at hlimit
    have hmax := ctx.limits.maxRegisters.toNat_lt
    have hadd : (b.nextRegister + 1).toNat = b.nextRegister.toNat + 1 := by
      rw [UInt16.toNat_add]
      show (b.nextRegister.toNat + 1) % 2 ^ 16 = _
      omega
    refine ⟨rfl, ?_⟩
    show Core.mk _ (b.nextRegister + 1).toNat _ _ _ = _
    rw [hadd]
    rfl

theorem allocateMany_eq_ok {ctx : BuilderContext} {span : Span} {count : Nat} {b b' : Builder}
    {u : Unit} (h : allocateMany ctx span count b = .ok (u, b')) :
    b'.core = { b.core with next := b.core.next + count } := by
  induction count generalizing b with
  | zero =>
    obtain ⟨-, rfl⟩ := pure_eq_ok.mp h
    rfl
  | succ count ih =>
    obtain ⟨r, b₁, h₁, h₂⟩ := bind_eq_ok.mp h
    rw [ih h₂, (allocate_eq_ok h₁).2]
    simp only [Core.mk.injEq, true_and, and_true]
    omega

theorem reserveRegisters_eq_ok {ctx : BuilderContext} {count : Nat} {span : Span} {b b' : Builder}
    {r : Register} (h : reserveRegisters ctx count span b = .ok (r, b')) :
    r.toNat = b.core.next ∧ b'.core = { b.core with next := b.core.next + count } := by
  obtain ⟨u, b₁, h₁, h₂⟩ := bind_eq_ok.mp (get_bind_eq_ok.mp h)
  obtain ⟨rfl, rfl⟩ := pure_eq_ok.mp h₂
  exact ⟨rfl, allocateMany_eq_ok h₁⟩

theorem allocateUpTo_eq_ok {ctx : BuilderContext} {limit : Nat} {span : Span} {b b' : Builder}
    {u : Unit} (h : allocateUpTo ctx limit span b = .ok (u, b')) :
    b'.core = { b.core with next := max b.core.next limit } := by
  rw [allocateMany_eq_ok (get_bind_eq_ok.mp h)]
  show { b.core with next := b.core.next + (limit - b.core.next) } = _
  simp only [Core.mk.injEq, true_and, and_true]
  omega

theorem core_append (b : Builder) (entry : IrInstruction) :
    ({ b with instructions := b.instructions ++ [entry] } : Builder).core
      = b.core.push entry.instruction := by
  simp [Builder.core, Core.push, Builder.code, Builder.waiting]

theorem emit_eq_ok {ctx : BuilderContext} {instruction : Instruction} {span : Span}
    {closePath : Option IrClosePath} {b b' : Builder} {u : Unit}
    (h : emit ctx instruction span closePath b = .ok (u, b')) :
    b'.core = b.core.push instruction := by
  obtain ⟨u₁, b₁, h₁, h⟩ := bind_eq_ok.mp (get_bind_eq_ok.mp h)
  have h := get_bind_eq_ok.mp h
  split at h
  · obtain ⟨pc, b₂, h₂, h⟩ := bind_eq_ok.mp h
    obtain ⟨u₃, b₃, h₃, h⟩ := bind_eq_ok.mp (get_bind_eq_ok.mp h)
    obtain rfl := modify_eq_ok.mp h
    rw [core_append, idle_recordTemporaries _ _ _ _ h₃, idle_currentOffset _ _ _ h₂,
      idle_stopIf _ _ _ h₁]
  · obtain rfl := modify_eq_ok.mp h
    rw [core_append, idle_stopIf _ _ _ h₁]

theorem emitNonCounted_eq_ok {ctx : BuilderContext} {instruction : Instruction} {span : Span}
    {b b' : Builder} {offset : InstructionOffset}
    (h : emitNonCounted ctx instruction span b = .ok (offset, b')) :
    offset.toNat = b.pc ∧ b'.core = b.core.push instruction := by
  obtain ⟨offset', b₁, h₁, h⟩ := bind_eq_ok.mp h
  obtain ⟨u₂, b₂, h₂, h⟩ := bind_eq_ok.mp (get_bind_eq_ok.mp h)
  obtain ⟨u₃, b₃, h₃, h⟩ := bind_eq_ok.mp h
  have h := modify_bind_eq_ok.mp h
  obtain ⟨rfl, rfl⟩ := pure_eq_ok.mp h
  refine ⟨(currentOffset_eq_ok h₁).1, ?_⟩
  show b₃.core = _
  rw [emit_eq_ok h₃, idle_stopIf _ _ _ h₂, idle_currentOffset _ _ _ h₁]

theorem inputOf_eq_ok {register : Register} {b b' : Builder} {input : Input}
    (h : inputOf register b = .ok (input, b')) : input = ⟨register, b.pc⟩ ∧ b' = b := by
  cases h
  exact ⟨rfl, rfl⟩

theorem recordWindow_eq_ok {inputs : List Input} {base floor : Register} {start : Nat}
    {b b' : Builder} {u : Unit} (h : recordWindow inputs base start floor b = .ok (u, b')) :
    b'.core
      = { b.core with windows := b.core.windows ++ [⟨inputs, base, start, floor, b.pc⟩] } := by
  obtain rfl := modify_eq_ok.mp h
  rfl

/-- Replace the instruction at an address. -/
def Core.patch (c : Core) (index : Nat) (instruction : Instruction) : Core :=
  { c with code := c.code.set index instruction }

theorem patchWith_eq_ok {ctx : BuilderContext} {index : Nat}
    {retarget : Instruction → Option Instruction} {missing wrong : String} {b b' : Builder}
    {u : Unit} (h : patchWith ctx index retarget missing wrong b = .ok (u, b')) :
    ∃ old new, b.core.code[index]? = some old ∧ retarget old = some new
      ∧ b'.core = b.core.patch index new := by
  simp only [patchWith, bind_eq_ok, get_eq_ok] at h
  obtain ⟨_, _, ⟨rfl, rfl⟩, entry, b₁, h₁, new, b₂, h₂, h⟩ := h
  obtain ⟨hentry, rfl⟩ := orStop_eq_ok h₁
  obtain ⟨hnew, rfl⟩ := orStop_eq_ok h₂
  obtain rfl := modify_eq_ok.mp h
  refine ⟨entry.instruction, new, ?_, hnew, ?_⟩
  · show (b₂.instructions.map IrInstruction.instruction)[index]? = _
    rw [List.getElem?_map, hentry]
    rfl
  · simp [Builder.core, Core.patch, Builder.code, Builder.waiting, List.map_set]

end RivetLua.Compiler
