import Mathlib.Logic.Relation
import RivetLua.Bytecode.OpenResults
import RivetLua.Compiler.Lower

namespace RivetLua.Bytecode

/-!
# Compiler — an abstract register machine

The machine runs the code of one frame.  It knows what a move does; of every other instruction
it knows only which registers it may write and where control may go.  A function that is called,
directly or by a metamethod, may moreover assign the captured locals of the frame.

* `Instruction.writes`, `Instruction.mayRun` — what an instruction may change;
* `MachineStep`, `Arrives` — steps, and the next arrival at an address;
* `Window.HoldsAt`, `Window.Holds` — the inputs of a window are where they belong;
* `HasWindow` — calls and returns take their values from windows;
* `Window.Placed` — a condition on the code that gives `Window.Holds`.
-/

/-! ### What an instruction may change -/

/-- The registers an instruction may write.  A call may leave anything from its base on. -/
def Instruction.writes (register : Nat) : Instruction → Prop
  | .loadConst dest _ | .move dest _ | .getUpvalue dest _ | .newTable dest | .getTable dest _ _
  | .unaryOp dest _ _ | .binaryOp dest _ _ _ | .closure dest _ => register = dest.toNat
  | .loadNil start count => start.toNat ≤ register ∧ register < start.toNat + count.toNat
  | .call base _ _ | .tailCall base _ _ | .vararg base _ => base.toNat ≤ register
  | .numericForPrepare control limit step visible _
  | .numericForNext control limit step visible _ _ =>
    register = control.toNat ∨ register = limit.toNat ∨ register = step.toNat
      ∨ register = visible.toNat
  | .setUpvalue _ _ | .setTable _ _ _ | .jump _ | .jumpIfFalse _ _ | .ret _ _ | .close _ _ => False

/-- What an instruction takes from consecutive registers: the callee and the arguments of a call,
    or the results of a return. -/
inductive Demand where
  | arguments (count : UInt16)
  | results (mode : ResultMode)

/-- The registers a call or a return reads, from its base on. -/
def Instruction.demand : Instruction → Option (Register × Demand)
  | .call base argCount _ | .tailCall base argCount _ => some (base, .arguments argCount)
  | .ret base mode => if mode = .fixed 0 then none else some (base, .results mode)
  | _ => none

/-- An instruction that may run a function: a call, a metamethod or a closing method. -/
def Instruction.mayRun : Instruction → Bool
  | .call _ _ _ | .tailCall _ _ _ | .getTable _ _ _ | .setTable _ _ _ | .binaryOp _ _ _ _ => true
  | .unaryOp _ op _ => op != .not
  | .close _ count => count != 0
  | _ => false

end RivetLua.Bytecode

namespace RivetLua.Compiler

open Relation
open RivetLua.Bytecode (Register Instruction Demand dynamicArguments)

/-! ### Steps -/

/-- The program counter and the registers of a frame. -/
structure MachineState (V : Type) where
  pc : Nat
  registers : Nat → V

variable {V : Type}

/-- One step; `captured` are the registers that a function may assign while it runs. -/
inductive MachineStep (code : List Instruction) (captured : Nat → Prop) :
    MachineState V → MachineState V → Prop
  | move {pc : Nat} {registers : Nat → V} {dest src : Register}
      (hcode : code[pc]? = some (.move dest src)) :
      MachineStep code captured ⟨pc, registers⟩
        ⟨pc + 1, Function.update registers dest.toNat (registers src.toNat)⟩
  | other {pc target : Nat} {registers registers' : Nat → V} {instruction : Instruction}
      (hcode : code[pc]? = some instruction) (hmove : ∀ dest src, instruction ≠ .move dest src)
      (htarget : target ∈ instruction.targets pc)
      (hkeeps : ∀ register, ¬ instruction.writes register →
        ¬ (instruction.mayRun = true ∧ captured register) →
        registers' register = registers register) :
      MachineStep code captured ⟨pc, registers⟩ ⟨target, registers'⟩

/-- A run up to the next arrival at `ready`. -/
def Arrives (code : List Instruction) (captured : Nat → Prop) (ready : Nat)
    (s s' : MachineState V) : Prop :=
  ReflTransGen (fun s₁ s₂ => s₁.pc ≠ ready ∧ MachineStep code captured s₁ s₂) s s'
    ∧ s'.pc = ready

/-- Whenever control arrives at `pc`, each register of the window holds the value that its input
    had when its evaluation was complete. -/
def Window.HoldsAt (V : Type) (code : List Instruction) (captured : Nat → Prop) (w : Window)
    (pc : Nat) : Prop :=
  ∀ index input, w.inputs[index]? = some input →
    ∀ s s' : MachineState V, s.pc = input.pc → Arrives code captured pc s s' →
      s'.registers (w.base.toNat + index) = s.registers input.register.toNat

/-- A window does its work: its inputs are in it when control arrives at `ready`, and the registers
    that were in use before are as they were, up to what functions assign. -/
structure Window.Holds (V : Type) (code : List Instruction) (captured : Nat → Prop) (w : Window) :
    Prop where
  inputs : w.HoldsAt V code captured w.ready
  below : ∀ register < w.floor.toNat, ¬ captured register →
    ∀ s s' : MachineState V, s.pc = w.start → Arrives code captured w.ready s s' →
      s'.registers register = s.registers register

/-- The last instruction in front of `ready` leaves an open result right behind the inputs. -/
def Window.OpenEnd (code : List Instruction) (w : Window) : Prop :=
  ∃ last producer r, w.ready = last + 1 ∧ code[last]? = some producer
    ∧ openBase producer = some r ∧ r.toNat = w.base.toNat + w.inputs.length

/-- A window has the values that an instruction takes: a fixed number of them, or all up to an open
    result. -/
def Window.Feeds (code : List Instruction) (w : Window) : Demand → Prop
  | .arguments count =>
    (count = dynamicArguments ∧ w.OpenEnd code) ∨ w.inputs.length = count.toNat + 1
  | .results (.fixed count) => w.inputs.length = count.toNat
  | .results .all => w.OpenEnd code

/-- A call takes its callee and arguments, and a return its results, from a window that is ready
    when the instruction is reached, up to closes, which write no register.  Calls of the list
    writer have no window. -/
def HasWindow (code : List Instruction) (windows : List Window) (listWrites : List Nat)
    (pc : Nat) : Prop :=
  ∀ instruction base demand, code[pc]? = some instruction →
    instruction.demand = some (base, demand) →
    pc ∈ listWrites ∨ ∃ w ∈ windows, w.base = base ∧ w.ready ≤ pc
      ∧ (∀ q, w.ready ≤ q → q < pc → ∃ register count, code[q]? = some (.close register count))
      ∧ w.Feeds code demand

theorem Window.OpenEnd.congr {code code' : List Instruction} {w : Window} (h : w.OpenEnd code)
    (hcode : ∀ pc producer r, pc < w.ready → code[pc]? = some producer →
      openBase producer = some r → code'[pc]? = some producer) : w.OpenEnd code' := by
  obtain ⟨last, producer, r, hready, hlast, hopen, hr⟩ := h
  exact ⟨last, producer, r, hready, hcode last producer r (by omega) hlast hopen, hopen, hr⟩

theorem Window.Feeds.congr {code code' : List Instruction} {w : Window} {demand : Demand}
    (h : w.Feeds code demand)
    (hcode : ∀ pc producer r, pc < w.ready → code[pc]? = some producer →
      openBase producer = some r → code'[pc]? = some producer) :
    w.Feeds code' demand := by
  cases demand with
  | arguments count => exact h.imp_left fun ⟨hdynamic, hopen⟩ => ⟨hdynamic, hopen.congr hcode⟩
  | results mode =>
    cases mode with
    | fixed count => exact h
    | all => exact Window.OpenEnd.congr h hcode

/-! ### Stretches of code -/

/-- The code from `start` to `stop` leaves a register alone, and control only moves on towards
    `stop`. -/
def KeepsRegister (code : List Instruction) (captured : Nat → Prop) (register start stop : Nat) :
    Prop :=
  ∀ pc instruction, start ≤ pc → pc < stop → code[pc]? = some instruction →
    ¬ instruction.writes register ∧ ¬ (instruction.mayRun = true ∧ captured register)
      ∧ ∀ target ∈ instruction.targets pc, pc < target ∧ target ≤ stop

/-- The code from `start` to `stop` writes no register below `floor`, and control only moves on
    towards `stop`. -/
def StaysAbove (code : List Instruction) (floor start stop : Nat) : Prop :=
  ∀ pc instruction, start ≤ pc → pc < stop → code[pc]? = some instruction →
    (∀ register, instruction.writes register → floor ≤ register)
      ∧ ∀ target ∈ instruction.targets pc, pc < target ∧ target ≤ stop

/-- The code from `start` to `stop` runs no function. -/
def QuietCode (code : List Instruction) (start stop : Nat) : Prop :=
  ∀ pc instruction, start ≤ pc → pc < stop → code[pc]? = some instruction →
    instruction.mayRun = false

/-- The inputs of a window are copied into it one by one, and kept before and after; the registers
    below the floor are never written, and no function assigns the window. -/
structure Window.Placed (code : List Instruction) (captured : Nat → Prop) (w : Window) : Prop where
  inputs : ∀ index input, w.inputs[index]? = some input →
    ∃ (dest : Register) (move : Nat), dest.toNat = w.base.toNat + index
      ∧ input.pc ≤ move ∧ move < w.ready ∧ code[move]? = some (.move dest input.register)
      ∧ KeepsRegister code captured input.register.toNat input.pc move
      ∧ KeepsRegister code captured dest.toNat (move + 1) w.ready
  below : StaysAbove code w.floor.toNat w.start w.ready
  start_le : w.start ≤ w.ready
  free : ∀ register, w.base.toNat ≤ register → ¬ captured register

theorem StaysAbove.keepsRegister {code : List Instruction} {captured : Nat → Prop}
    {floor start stop register : Nat} (h : StaysAbove code floor start stop)
    (hfloor : register < floor) (hcaptured : captured register → QuietCode code start stop) :
    KeepsRegister code captured register start stop := by
  intro pc instruction hstart hstop hcode
  obtain ⟨hwrites, htargets⟩ := h pc instruction hstart hstop hcode
  refine ⟨fun hw => ?_, fun ⟨hrun, hc⟩ => ?_, htargets⟩
  · exact absurd (hwrites register hw) hfloor.not_ge
  · have hquiet := hcaptured hc pc instruction hstart hstop hcode
    rw [hquiet] at hrun
    exact Bool.false_ne_true hrun

/-- What one step inside a stretch does. -/
theorem MachineStep.keeps {code : List Instruction} {captured : Nat → Prop}
    {register start stop : Nat} (h : KeepsRegister code captured register start stop)
    {s s' : MachineState V} (hstep : MachineStep code captured s s') (hstart : start ≤ s.pc)
    (hstop : s.pc < stop) :
    s'.registers register = s.registers register ∧ s.pc < s'.pc ∧ s'.pc ≤ stop := by
  cases hstep with
  | move hcode =>
    obtain ⟨hwrites, -, htargets⟩ := h _ _ hstart hstop hcode
    refine ⟨?_, htargets _ (List.mem_singleton.mpr rfl)⟩
    exact Function.update_of_ne hwrites _ _
  | other hcode hmove htarget hkeeps =>
    obtain ⟨hwrites, hcaptured, htargets⟩ := h _ _ hstart hstop hcode
    exact ⟨hkeeps _ hwrites hcaptured, htargets _ htarget⟩

/-- A run that starts in a stretch passes its end, with the register as it was. -/
theorem Arrives.through {code : List Instruction} {captured : Nat → Prop}
    {register start stop ready : Nat} (h : KeepsRegister code captured register start stop)
    (hready : stop ≤ ready) {s s' : MachineState V} (hrun : Arrives code captured ready s s')
    (hstart : start ≤ s.pc) (hstop : s.pc ≤ stop) :
    ∃ t, t.pc = stop ∧ t.registers register = s.registers register
      ∧ Arrives code captured ready t s' := by
  obtain ⟨hsteps, hend⟩ := hrun
  induction hsteps using ReflTransGen.head_induction_on with
  | refl => exact ⟨s', by omega, rfl, .refl, hend⟩
  | head hstep hrest ih =>
    rename_i u v
    by_cases hu : u.pc = stop
    · exact ⟨u, hu, rfl, .head hstep hrest, hend⟩
    · obtain ⟨hkept, hlt, hle⟩ := hstep.2.keeps h hstart (by omega)
      obtain ⟨t, ht, htr, hrun⟩ := ih (by omega) hle
      exact ⟨t, ht, htr.trans hkept, hrun⟩

/-- A run at a move executes it. -/
theorem Arrives.move {code : List Instruction} {captured : Nat → Prop} {ready pc : Nat}
    {dest src : Register} (hcode : code[pc]? = some (.move dest src)) (hready : pc ≠ ready)
    {s s' : MachineState V} (hrun : Arrives code captured ready s s') (hpc : s.pc = pc) :
    ∃ t, t.pc = pc + 1 ∧ t.registers dest.toNat = s.registers src.toNat
      ∧ Arrives code captured ready t s' := by
  obtain ⟨hsteps, hend⟩ := hrun
  rcases hsteps.cases_head with rfl | ⟨t, ⟨-, hstep⟩, hrest⟩
  · exact absurd (hpc.symm.trans hend) hready
  · subst hpc
    cases hstep with
    | move hcode' =>
      cases hcode.symm.trans hcode'
      exact ⟨_, rfl, Function.update_self .., hrest, hend⟩
    | other hcode' hmove =>
      cases hcode.symm.trans hcode'
      exact absurd rfl (hmove dest src)

/-- A run through the whole stretch leaves the register as it was. -/
theorem Arrives.kept {code : List Instruction} {captured : Nat → Prop} {register start ready : Nat}
    (h : KeepsRegister code captured register start ready) {s s' : MachineState V}
    (hrun : Arrives code captured ready s s') (hstart : start ≤ s.pc) (hready : s.pc ≤ ready) :
    s'.registers register = s.registers register := by
  obtain ⟨t, ht, htr, hrun⟩ := hrun.through h le_rfl hstart hready
  have hend : t = s' := by
    obtain ⟨hsteps, -⟩ := hrun
    rcases hsteps.cases_head with rfl | ⟨_, hstep, -⟩
    · rfl
    · exact absurd ht hstep.1
  rw [← hend, htr]

/-- Closes keep the registers that no function assigns. -/
theorem keepsRegister_closes {code : List Instruction} {captured : Nat → Prop}
    {register start stop : Nat} (hcaptured : ¬ captured register)
    (h : ∀ q, start ≤ q → q < stop → ∃ r count, code[q]? = some (.close r count)) :
    KeepsRegister code captured register start stop := by
  intro pc instruction hstart hstop hcode
  obtain ⟨r, count, hclose⟩ := h pc hstart hstop
  cases hclose.symm.trans hcode
  refine ⟨id, fun hc => hcaptured hc.2, fun target ht => ?_⟩
  rw [List.mem_singleton.mp ht]
  exact ⟨Nat.lt_succ_self _, hstop⟩

/-- A window whose inputs are placed holds them, also behind closes. -/
theorem Window.Placed.holdsAt {code : List Instruction} {captured : Nat → Prop} {w : Window}
    (h : w.Placed code captured) {pc : Nat} (hready : w.ready ≤ pc)
    (hcloses : ∀ q, w.ready ≤ q → q < pc → ∃ register count, code[q]? = some (.close register count)) :
    w.HoldsAt V code captured pc := by
  intro index input hinput s s' hpc hrun
  obtain ⟨dest, move, hdest, hle, hlt, hcode, hbefore, hafter⟩ := h.inputs index input hinput
  have hfree : ¬ captured dest.toNat := h.free _ (by omega)
  -- to the move, over it, on to the end of the window, and over the closes
  obtain ⟨t, ht, htr, hrun⟩ := hrun.through hbefore (by omega) hpc.ge (hpc.trans_le hle)
  obtain ⟨u, hu, hur, hrun⟩ := hrun.move hcode (by omega) ht
  obtain ⟨v, hv, hvr, hrun⟩ := hrun.through hafter hready hu.ge (by omega)
  rw [← hdest, hrun.kept (keepsRegister_closes hfree hcloses) hv.ge (by omega), hvr, hur, htr]

/-- A window whose inputs are placed does its work. -/
theorem Window.Placed.holds {code : List Instruction} {captured : Nat → Prop} {w : Window}
    (h : w.Placed code captured) : w.Holds V code captured where
  inputs := h.holdsAt le_rfl fun _ hq hlt => absurd hq hlt.not_ge
  below _ hfloor hcaptured _ _ hpc hrun :=
    hrun.kept (h.below.keepsRegister hfloor fun hc => absurd hc hcaptured) hpc.ge
      (hpc.trans_le h.start_le)

/-- The addresses on which the placement of a window depends. -/
def Window.Covers (w : Window) (pc : Nat) : Prop :=
  pc < w.ready ∧ (w.start ≤ pc ∨ ∃ input ∈ w.inputs, input.pc ≤ pc)

/-- Placement looks at the code of the window only. -/
theorem Window.Placed.congr {code code' : List Instruction} {captured : Nat → Prop} {w : Window}
    (h : w.Placed code captured) (hcode : ∀ pc, w.Covers pc → code'[pc]? = code[pc]?) :
    w.Placed code' captured := by
  refine ⟨fun index input hinput => ?_, fun pc instruction hstart hstop hpc => ?_, h.start_le,
    h.free⟩
  · obtain ⟨dest, move, hdest, hle, hlt, hmove, hbefore, hafter⟩ := h.inputs index input hinput
    have hmem : input ∈ w.inputs := List.mem_of_getElem? hinput
    have hsame : ∀ pc, input.pc ≤ pc → pc < w.ready → code'[pc]? = code[pc]? :=
      fun pc hle hlt => hcode pc ⟨hlt, .inr ⟨input, hmem, hle⟩⟩
    refine ⟨dest, move, hdest, hle, hlt, ?_, ?_, ?_⟩
    · rw [hsame move hle hlt]
      exact hmove
    · intro pc instruction hstart hstop hpc
      rw [hsame pc hstart (by omega)] at hpc
      exact hbefore pc instruction hstart hstop hpc
    · intro pc instruction hstart hstop hpc
      rw [hsame pc (by omega) hstop] at hpc
      exact hafter pc instruction hstart hstop hpc
  · rw [hcode pc ⟨hstop, .inl hstart⟩] at hpc
    exact h.below pc instruction hstart hstop hpc

end RivetLua.Compiler
