import Mathlib.Logic.Function.Basic
import Mathlib.Logic.Relation
import RivetLua.Bytecode.Module

namespace RivetLua.Runtime

open Relation
open RivetLua.Bytecode (EnvironmentSource)

/-!
# Runtime — the environment of a chunk (Lua 5.5)

The functions of a chunk read declared globals through a register of their own frame.  The register
is filled when the frame is entered, from a copy of the environment that the closure took when it
was made, unless the closure has a cell.

* `EnvironmentState` — closures, frames and cells, as far as environments go;
* `readEnvironmentRegister`, `explicitTable` — the tables that a global and `_ENV.name` access;
* `EnvironmentState.step` — closures are made, called and collected, `_ENV` is assigned;
* `HoldsCopy`, `Clean` — when a step leaves a copy behind that is out of date;
* `Coherent`, `agrees_of_run` — without such a step every access goes to the `_ENV` of the chunk.
-/

/-! ### States -/

/-- `UpvalueState`: the environment register of a frame, or a value of its own. -/
inductive EnvironmentCell (V : Type) where
  | open (frame : Nat)
  | closed (value : V)

/-- `Closure`, as far as environments go; `captured` is the upvalue whose origin is the `_ENV` of
    the chunk, `chunk` the activation of the chunk that the closure belongs to. -/
structure EnvironmentClosure (V : Type) where
  isChunk : Bool
  nativeDebug : Bool
  environment : Option V
  environmentCell : Option Nat
  captured : Option Nat
  chunk : Nat

/-- `CallFrame`, as far as environments go: the environment register and the open upvalue on it. -/
structure EnvironmentFrame (V : Type) where
  closure : Option Nat
  isChunk : Bool
  nativeDebug : Bool
  register : V
  openCell : Option Nat
  chunk : Nat

/-- Closures, frames and cells by number.  The last two fields are not part of the machine: the
    value last assigned to the `_ENV` of an activation of a chunk, and the cell that captures it. -/
structure EnvironmentState (V : Type) where
  next : Nat
  closures : Nat → Option (EnvironmentClosure V)
  frames : Nat → Option (EnvironmentFrame V)
  cells : Nat → Option (EnvironmentCell V)
  current : Nat → V
  shared : Nat → Option Nat

namespace EnvironmentState

variable {V : Type} (s : EnvironmentState V)

/-! ### Reading an environment -/

/-- `Execution::read_upvalue`. -/
def readUpvalue (cell : Nat) : Option V :=
  match s.cells cell with
  | some (.open frame) => (s.frames frame).map (·.register)
  | some (.closed value) => some value
  | none => none

/-- `Closure::environment_cell`. -/
def environmentCell (closure : Nat) : Option Nat := (s.closures closure).bind (·.environmentCell)

/-- `Execution::closure_environment_value`. -/
def closureEnvironmentValue (closure : Nat) : Option V :=
  match s.environmentCell closure with
  | some cell => s.readUpvalue cell
  | none => (s.closures closure).bind (·.environment)

/-- `Execution::read_environment_register` at the environment register of a frame: the table that
    the access of a global goes to. -/
def readEnvironmentRegister (frame : Nat) : Option V :=
  (s.frames frame).bind fun f =>
    match f.closure.bind s.environmentCell with
    | some cell => s.readUpvalue cell
    | none => some f.register

/-- The table that `_ENV.name` accesses: the `_ENV` of the chunk is the environment register of
    the chunk itself, and an upvalue of the functions that name it. -/
def explicitTable (frame : Nat) : Option V :=
  (s.frames frame).bind fun f =>
    if f.isChunk then s.readEnvironmentRegister frame
    else ((f.closure.bind s.closures).bind (·.captured)).bind s.readUpvalue

/-! ### Steps -/

/-- What can happen.  `source` is the environment source of the function that is made: the frame of
    the parent for a function that does not capture `_ENV`. -/
inductive Action (V : Type) where
  | start (environment : V)
  | chunk (nativeDebug : Bool) (environment : V)
  | makeClosure (frame : Nat) (source : EnvironmentSource)
  | call (closure : Nat)
  | leave (frame : Nat)
  | assign (frame : Nat) (value : V)
  | collect (closure : Nat)

/-- Add a frame; a frame of a chunk has an `_ENV` of its own. -/
def addFrame (frame : EnvironmentFrame V) : EnvironmentState V :=
  { s with
    next := s.next + 1
    frames := Function.update s.frames s.next (some frame)
    current := if frame.isChunk then Function.update s.current s.next frame.register
      else s.current }

/-- Add a closure. -/
def addClosure (closure : EnvironmentClosure V) : EnvironmentState V :=
  { s with
    next := s.next + 1
    closures := Function.update s.closures s.next (some closure) }

/-- `Vm::load_with_environment` of a module without debug information: a frame without a closure. -/
def start (environment : V) : EnvironmentState V :=
  s.addFrame ⟨none, true, false, environment, none, s.next⟩

/-- The closure of a chunk: `load`, and `Vm::load_with_environment` with debug information. -/
def newChunk (nativeDebug : Bool) (environment : V) : EnvironmentState V :=
  s.addClosure ⟨true, nativeDebug, some environment, none, none, 0⟩

/-- Give a closure a new cell with a value: `Closure::set_environment_cell`. -/
def addEnvironmentCell (closure : Nat) (initial : V) : EnvironmentState V :=
  { s with
    next := s.next + 1
    closures := Function.update s.closures closure
      ((s.closures closure).map fun c =>
        { c with environment := none, environmentCell := some s.next })
    cells := Function.update s.cells s.next (some (.closed initial)) }

/-- `Vm::closure_environment_cell`: the cell of a closure, or a new one with a value. -/
def closureEnvironmentCell (closure : Nat) (initial : V) : Nat × EnvironmentState V :=
  match s.environmentCell closure with
  | some cell => (cell, s)
  | none => (s.next, s.addEnvironmentCell closure initial)

/-- A new open upvalue on the environment register of a chunk. -/
def openRegister (frame : Nat) (f : EnvironmentFrame V) : EnvironmentState V :=
  { s with
    next := s.next + 1
    frames := Function.update s.frames frame (some { f with openCell := some s.next })
    cells := Function.update s.cells s.next (some (.open frame))
    shared := Function.update s.shared frame (some s.next) }

/-- `Execution::capture_upvalues`, for the environment register of the chunk: the open upvalue on
    it, or a new one. -/
def captureRegister (frame : Nat) (f : EnvironmentFrame V) : Nat × EnvironmentState V :=
  match f.openCell with
  | some cell => (cell, s)
  | none => (s.next, s.openRegister frame f)

/-- `Instruction::Closure`. -/
def makeClosure (frame : Nat) (source : EnvironmentSource) : Option (EnvironmentState V) :=
  (s.frames frame).bind fun f =>
    match source with
    | .rootExternal => none
    | .parentFrame _ _ => do
      let environment ← s.readEnvironmentRegister frame
      match f.nativeDebug, f.closure with
      | true, some owner =>
        let (cell, s) := s.closureEnvironmentCell owner environment
        return s.addClosure ⟨false, f.nativeDebug, none, some cell, none, f.chunk⟩
      | _, _ => return s.addClosure ⟨false, f.nativeDebug, some environment, none, none, f.chunk⟩
    | .parentLocal _ =>
      if f.isChunk then
        let (cell, s) := s.captureRegister frame f
        some (s.addClosure ⟨false, f.nativeDebug, none, some cell, some cell, f.chunk⟩)
      else none
    | .parentUpvalue _ => do
      let owner ← f.closure
      let cell ← (s.closures owner).bind (·.captured)
      return s.addClosure ⟨false, f.nativeDebug, none, some cell, some cell, f.chunk⟩

/-- Enter a frame: `Execution::enter_regular_call` and the other ways to call a closure. -/
def call (closure : Nat) : Option (EnvironmentState V) := do
  let c ← s.closures closure
  let value ← s.closureEnvironmentValue closure
  let chunk := if c.isChunk then s.next else c.chunk
  return s.addFrame ⟨some closure, c.isChunk, c.nativeDebug, value, none, chunk⟩

/-- Leave a frame, closing the open upvalue on its environment register. -/
def leave (frame : Nat) : Option (EnvironmentState V) :=
  (s.frames frame).map fun f =>
    { s with
      frames := Function.update s.frames frame none
      cells := match f.openCell with
        | some cell => Function.update s.cells cell (some (.closed f.register))
        | none => s.cells }

/-- `Execution::write_upvalue`. -/
def writeUpvalue (cell : Nat) (value : V) : Option (EnvironmentState V) :=
  match s.cells cell with
  | some (.open frame) => some
    { s with
      frames := Function.update s.frames frame
        ((s.frames frame).map fun f => { f with register := value }) }
  | some (.closed _) => some { s with cells := Function.update s.cells cell (some (.closed value)) }
  | none => none

/-- `_ENV = value`: a move to the environment register of the chunk, or an assignment to the
    upvalue. -/
def assign (frame : Nat) (value : V) : Option (EnvironmentState V) :=
  (s.frames frame).bind fun f =>
    if f.isChunk then some
      { s with
        frames := Function.update s.frames frame (some { f with register := value })
        current := Function.update s.current f.chunk value }
    else do
      let owner ← f.closure
      let cell ← (s.closures owner).bind (·.captured)
      let s ← s.writeUpvalue cell value
      return { s with current := Function.update s.current f.chunk value }

/-- Collect a closure that no frame runs. -/
def collect (closure : Nat) : EnvironmentState V :=
  { s with closures := Function.update s.closures closure none }

/-- One step. -/
def step : Action V → Option (EnvironmentState V)
  | .start environment => some (s.start environment)
  | .chunk nativeDebug environment => some (s.newChunk nativeDebug environment)
  | .makeClosure frame source => s.makeClosure frame source
  | .call closure => s.call closure
  | .leave frame => s.leave frame
  | .assign frame value => s.assign frame value
  | .collect closure => some (s.collect closure)

/-! ### Copies -/

/-- Something reads the environment of an activation of a chunk, but not through the cell that
    captures its `_ENV`: a function with a copy or a cell of its own, or the chunk itself once its
    closure has a cell. -/
def HoldsCopy (chunk : Nat) : Prop :=
  (∃ n c, s.closures n = some c ∧ c.isChunk = false ∧ c.chunk = chunk
      ∧ ∀ cell, c.environmentCell = some cell → s.shared chunk ≠ some cell)
    ∨ ∃ f owner cell, s.frames chunk = some f ∧ f.isChunk = true ∧ f.closure = some owner
      ∧ s.environmentCell owner = some cell

/-- A step that leaves no copy out of date: `_ENV` gets a new value only while nothing holds a
    copy, and the closure of a chunk gets a cell only if all its activations agree. -/
def Clean : Action V → Prop
  | .assign frame value => ∀ f, s.frames frame = some f →
    value = s.current f.chunk ∨ ¬ s.HoldsCopy f.chunk
  | .makeClosure frame (.parentFrame _ _) => ∀ f owner, s.frames frame = some f →
    f.nativeDebug = true → f.isChunk = true → f.closure = some owner →
    s.environmentCell owner = none →
    ∀ other g, s.frames other = some g → g.closure = some owner →
      s.current g.chunk = s.current f.chunk
  | _ => True

/-- A closure is collected only if no frame runs it. -/
def Possible : Action V → Prop
  | .collect closure => ∀ frame f, s.frames frame = some f → f.closure ≠ some closure
  | _ => True

/-! ### Coherent states -/

/-- Everything that reads an environment reads the `_ENV` of its chunk. -/
structure Coherent : Prop where
  freshClosure : ∀ n, s.next ≤ n → s.closures n = none
  freshFrame : ∀ n, s.next ≤ n → s.frames n = none
  freshCell : ∀ n, s.next ≤ n → s.cells n = none
  freshShared : ∀ n, s.next ≤ n → s.shared n = none
  chunkFrame : ∀ n f, s.frames n = some f → f.isChunk = true →
    f.chunk = n ∧ f.register = s.current n ∧ f.openCell = s.shared n
  chunkOwner : ∀ n f owner, s.frames n = some f → f.isChunk = true → f.closure = some owner →
    ∃ c, s.closures owner = some c ∧ c.isChunk = true
      ∧ ∀ cell, c.environmentCell = some cell → s.cells cell = some (.closed (s.current n))
  innerFrame : ∀ n f, s.frames n = some f → f.isChunk = false → f.openCell = none
    ∧ ∃ owner c, f.closure = some owner ∧ s.closures owner = some c ∧ c.isChunk = false
      ∧ c.chunk = f.chunk ∧ (c.environmentCell = none → f.register = s.current f.chunk)
  innerClosure : ∀ n c, s.closures n = some c → c.isChunk = false →
    s.closureEnvironmentValue n = some (s.current c.chunk) ∧ c.chunk < s.next
      ∧ ∀ cell, c.captured = some cell → s.shared c.chunk = some cell
  chunkClosure : ∀ n c, s.closures n = some c → c.isChunk = true → c.captured = none
  cellOf : ∀ n c cell, s.closures n = some c → c.environmentCell = some cell →
    (c.isChunk = false ∧ s.shared c.chunk = some cell)
      ∨ ((∀ chunk, s.shared chunk ≠ some cell) ∧ ∃ value, s.cells cell = some (.closed value))
  sharedCell : ∀ chunk cell, s.shared chunk = some cell →
    (s.cells cell = some (.open chunk) ∧ ∃ f, s.frames chunk = some f ∧ f.isChunk = true)
      ∨ (s.cells cell = some (.closed (s.current chunk)) ∧ s.frames chunk = none)
  sharedInjective : ∀ chunk chunk' cell, s.shared chunk = some cell →
    s.shared chunk' = some cell → chunk = chunk'

variable {s} {s' : EnvironmentState V}

theorem Coherent.readUpvalue_shared (h : s.Coherent) {chunk cell : Nat}
    (hcell : s.shared chunk = some cell) : s.readUpvalue cell = some (s.current chunk) := by
  obtain ⟨hopen, f, hf, hchunk⟩ | ⟨hclosed, -⟩ := h.sharedCell chunk cell hcell
  · obtain ⟨-, hregister, -⟩ := h.chunkFrame chunk f hf hchunk
    simp [readUpvalue, hopen, hf, hregister]
  · simp [readUpvalue, hclosed]

theorem Coherent.closure_lt (h : s.Coherent) {n : Nat} {c : EnvironmentClosure V}
    (hc : s.closures n = some c) : n < s.next := by
  by_contra hge
  simp [h.freshClosure n (by omega)] at hc

theorem Coherent.frame_lt (h : s.Coherent) {n : Nat} {f : EnvironmentFrame V}
    (hf : s.frames n = some f) : n < s.next := by
  by_contra hge
  simp [h.freshFrame n (by omega)] at hf

theorem Coherent.shared_lt (h : s.Coherent) {chunk cell : Nat}
    (hcell : s.shared chunk = some cell) : chunk < s.next ∧ cell < s.next := by
  constructor
  · by_contra hge
    simp [h.freshShared chunk (by omega)] at hcell
  · by_contra hge
    have hnone := h.freshCell cell (by omega)
    obtain ⟨hopen, -⟩ | ⟨hclosed, -⟩ := h.sharedCell chunk cell hcell
    · simp [hnone] at hopen
    · simp [hnone] at hclosed

/-- A step that keeps cells and registers keeps what is read through a cell. -/
theorem readUpvalue_mono (s s' : EnvironmentState V)
    (hcells : ∀ n c, s.cells n = some c → s'.cells n = some c)
    (hframes : ∀ n f, s.frames n = some f → ∃ f', s'.frames n = some f' ∧ f'.register = f.register)
    {cell : Nat} {value : V} (hread : s.readUpvalue cell = some value) :
    s'.readUpvalue cell = some value := by
  unfold readUpvalue at hread ⊢
  rcases hcell : s.cells cell with _ | ⟨frame⟩ | ⟨stored⟩
  · simp [hcell] at hread
  · simp only [hcell, Option.map_eq_some_iff] at hread
    obtain ⟨f, hf, rfl⟩ := hread
    obtain ⟨f', hf', hregister⟩ := hframes frame f hf
    simp [hcells cell _ hcell, hf', hregister]
  · simpa [hcells cell _ hcell, hcell] using hread

/-- … and what a closure has for its environment. -/
theorem closureEnvironmentValue_mono (s s' : EnvironmentState V)
    (hread : ∀ cell value, s.readUpvalue cell = some value → s'.readUpvalue cell = some value)
    {n : Nat} (hclosure : s'.closures n = s.closures n) {value : V}
    (hvalue : s.closureEnvironmentValue n = some value) :
    s'.closureEnvironmentValue n = some value := by
  unfold closureEnvironmentValue EnvironmentState.environmentCell at hvalue ⊢
  rw [hclosure]
  rcases hcell : (s.closures n).bind (·.environmentCell) with _ | cell
  · simpa [hcell] using hvalue
  · simp only [hcell] at hvalue ⊢
    exact hread cell value hvalue

theorem Coherent.addFrame (h : s.Coherent) {f : EnvironmentFrame V} (hopen : f.openCell = none)
    (hchunk : f.isChunk = true → f.chunk = s.next ∧ ∀ owner, f.closure = some owner →
      ∃ c, s.closures owner = some c ∧ c.isChunk = true
        ∧ ∀ cell, c.environmentCell = some cell → s.cells cell = some (.closed f.register))
    (hinner : f.isChunk = false → f.chunk < s.next ∧ ∃ owner c, f.closure = some owner
      ∧ s.closures owner = some c ∧ c.isChunk = false ∧ c.chunk = f.chunk
      ∧ (c.environmentCell = none → f.register = s.current f.chunk)) :
    (s.addFrame f).Coherent := by
  have hcurrent : ∀ n < s.next, (s.addFrame f).current n = s.current n := by
    intro n hn
    unfold EnvironmentState.addFrame
    grind [Function.update]
  have hframe : ∀ n < s.next, (s.addFrame f).frames n = s.frames n := fun n hn =>
    Function.update_of_ne (Nat.ne_of_lt hn) _ _
  have hnew : (s.addFrame f).frames s.next = some f := Function.update_self _ _ _
  have hread : ∀ {cell value}, s.readUpvalue cell = some value →
      (s.addFrame f).readUpvalue cell = some value := by
    intro cell value
    refine readUpvalue_mono s (s.addFrame f) (fun _ _ hc => hc) fun n g hg => ⟨g, ?_, rfl⟩
    exact (hframe n (h.frame_lt hg)).trans hg
  have hcases : ∀ {n g}, (s.addFrame f).frames n = some g →
      (n = s.next ∧ g = f) ∨ (n < s.next ∧ s.frames n = some g) := by
    intro n g hg
    by_cases hn : n = s.next
    · subst hn
      exact .inl ⟨rfl, (Option.some.inj (hnew.symm.trans hg)).symm⟩
    · have hg : s.frames n = some g := (Function.update_of_ne hn _ _).symm.trans hg
      exact .inr ⟨h.frame_lt hg, hg⟩
  constructor
  case freshClosure => exact fun n hn => h.freshClosure n (Nat.le_of_succ_le hn)
  case freshCell => exact fun n hn => h.freshCell n (Nat.le_of_succ_le hn)
  case freshShared => exact fun n hn => h.freshShared n (Nat.le_of_succ_le hn)
  case freshFrame =>
    intro n hn
    exact (Function.update_of_ne (Nat.ne_of_gt hn) _ _).trans
      (h.freshFrame n (Nat.le_of_succ_le hn))
  case chunkFrame =>
    intro n g hg hisChunk
    obtain ⟨rfl, rfl⟩ | ⟨hn, hg⟩ := hcases hg
    · refine ⟨(hchunk hisChunk).1, ?_, ?_⟩
      · simp [EnvironmentState.addFrame, hisChunk]
      · exact hopen.trans (h.freshShared _ (Nat.le_refl _)).symm
    · rw [hcurrent n hn]
      exact h.chunkFrame n g hg hisChunk
  case chunkOwner =>
    intro n g owner hg hisChunk howner
    obtain ⟨rfl, rfl⟩ | ⟨hn, hg⟩ := hcases hg
    · obtain ⟨c, hc, hcc, hcell⟩ := (hchunk hisChunk).2 owner howner
      refine ⟨c, hc, hcc, fun cell hsome => ?_⟩
      simpa [EnvironmentState.addFrame, hisChunk] using hcell cell hsome
    · rw [hcurrent n hn]
      exact h.chunkOwner n g owner hg hisChunk howner
  case innerFrame =>
    intro n g hg hisInner
    obtain ⟨rfl, rfl⟩ | ⟨hn, hg⟩ := hcases hg
    · obtain ⟨hlt, howner⟩ := hinner hisInner
      rw [hcurrent _ hlt]
      exact ⟨hopen, howner⟩
    · obtain ⟨hcell, owner, c, howner, hc, hcc, hchunk', hregister⟩ := h.innerFrame n g hg hisInner
      rw [hcurrent _ (hchunk' ▸ (h.innerClosure owner c hc hcc).2.1)]
      exact ⟨hcell, owner, c, howner, hc, hcc, hchunk', hregister⟩
  case innerClosure =>
    intro n c hc hisInner
    obtain ⟨hvalue, hlt, hcaptured⟩ := h.innerClosure n c hc hisInner
    rw [hcurrent _ hlt]
    exact ⟨closureEnvironmentValue_mono s (s.addFrame f) (fun _ _ => hread) rfl hvalue, Nat.lt_succ_of_lt hlt,
      hcaptured⟩
  case chunkClosure => exact h.chunkClosure
  case cellOf => exact h.cellOf
  case sharedCell =>
    intro chunk cell hcell
    obtain ⟨hlt, -⟩ := h.shared_lt hcell
    rw [hcurrent chunk hlt, hframe chunk hlt]
    exact h.sharedCell chunk cell hcell
  case sharedInjective => exact h.sharedInjective

/-- In a coherent state, the access of a global goes to the `_ENV` of the chunk. -/
theorem Coherent.readEnvironmentRegister_eq (h : s.Coherent) {frame : Nat} {f : EnvironmentFrame V}
    (hf : s.frames frame = some f) : s.readEnvironmentRegister frame = some (s.current f.chunk) := by
  unfold EnvironmentState.readEnvironmentRegister
  simp only [hf, Option.bind_some]
  rcases hkind : f.isChunk with _ | _
  · obtain ⟨-, owner, c, howner, hc, hcc, hchunk, hregister⟩ := h.innerFrame frame f hf hkind
    obtain ⟨hvalue, -, -⟩ := h.innerClosure owner c hc hcc
    unfold closureEnvironmentValue at hvalue
    simp only [howner, Option.bind_some]
    rcases hcell : s.environmentCell owner with _ | cell
    · have hnone : c.environmentCell = none := by
        simpa [EnvironmentState.environmentCell, hc] using hcell
      exact congrArg some (hregister hnone)
    · rw [hcell, hchunk] at hvalue
      exact hvalue
  · obtain ⟨hchunk, hregister, -⟩ := h.chunkFrame frame f hf hkind
    rcases howner : f.closure with _ | owner
    · simp [hregister, hchunk]
    · obtain ⟨c, hc, -, hclosed⟩ := h.chunkOwner frame f owner hf hkind howner
      rcases hcell : c.environmentCell with _ | cell
      · simp [EnvironmentState.environmentCell, hc, hcell, hregister, hchunk]
      · simp [EnvironmentState.environmentCell, hc, hcell, readUpvalue, hclosed cell hcell, hchunk]

/-- … and so does that of `_ENV.name`. -/
theorem Coherent.explicitTable_eq (h : s.Coherent) {frame : Nat} {f : EnvironmentFrame V} {table : V}
    (hf : s.frames frame = some f) (htable : s.explicitTable frame = some table) :
    table = s.current f.chunk := by
  unfold EnvironmentState.explicitTable at htable
  simp only [hf, Option.bind_some] at htable
  rcases hkind : f.isChunk with _ | _
  · obtain ⟨-, owner, c, howner, hc, hcc, hchunk, -⟩ := h.innerFrame frame f hf hkind
    obtain ⟨-, -, hcaptured⟩ := h.innerClosure owner c hc hcc
    simp only [hkind, Bool.false_eq_true, if_false, howner, Option.bind_some, hc,
      Option.bind_eq_some_iff] at htable
    obtain ⟨cell, hcell, hread⟩ := htable
    rw [h.readUpvalue_shared (hcaptured cell hcell), hchunk] at hread
    exact (Option.some.inj hread).symm
  · rw [if_pos hkind, h.readEnvironmentRegister_eq hf] at htable
    exact (Option.some.inj htable).symm

theorem Coherent.start (h : s.Coherent) (environment : V) : (s.start environment).Coherent :=
  h.addFrame rfl (fun _ => ⟨rfl, fun _ howner => nomatch howner⟩) fun hinner => nomatch hinner

theorem Coherent.call (h : s.Coherent) {closure : Nat} (hs : s.call closure = some s') :
    s'.Coherent := by
  simp only [EnvironmentState.call, Option.bind_eq_bind, Option.bind_eq_some_iff, Option.pure_def,
    Option.some.injEq] at hs
  obtain ⟨c, hc, value, hvalue, rfl⟩ := hs
  refine h.addFrame rfl (fun hisChunk => ⟨if_pos hisChunk, ?_⟩) fun hisInner => ?_
  · rintro owner ⟨⟩
    refine ⟨c, hc, hisChunk, fun cell hcell => ?_⟩
    obtain ⟨hinner, -⟩ | ⟨-, stored, hstored⟩ := h.cellOf closure c cell hc hcell
    · exact absurd hisChunk (by simp [hinner])
    · simp only [closureEnvironmentValue, EnvironmentState.environmentCell, hc, Option.bind_some,
        hcell, readUpvalue, hstored, Option.some.injEq] at hvalue
      rw [hstored, hvalue]
  · have hisInner : c.isChunk = false := hisInner
    obtain ⟨hcurrent, hlt, -⟩ := h.innerClosure closure c hc hisInner
    have heq : (if c.isChunk = true then s.next else c.chunk) = c.chunk := by simp [hisInner]
    simp only [heq]
    exact ⟨hlt, closure, c, rfl, hc, hisInner, rfl, fun _ =>
      Option.some.inj (hvalue.symm.trans hcurrent)⟩

theorem Coherent.addClosure (h : s.Coherent) {c : EnvironmentClosure V}
    (hchunk : c.isChunk = true → c.environmentCell = none ∧ c.captured = none)
    (hinner : c.isChunk = false → c.chunk < s.next
      ∧ (∀ cell, c.captured = some cell → s.shared c.chunk = some cell)
      ∧ (c.environmentCell = none → c.environment = some (s.current c.chunk))
      ∧ ∀ cell, c.environmentCell = some cell →
        s.shared c.chunk = some cell ∨ ((∀ chunk, s.shared chunk ≠ some cell)
          ∧ s.cells cell = some (.closed (s.current c.chunk)))) :
    (s.addClosure c).Coherent := by
  have hold : ∀ n < s.next, (s.addClosure c).closures n = s.closures n := fun n hn =>
    Function.update_of_ne (Nat.ne_of_lt hn) _ _
  have hnew : (s.addClosure c).closures s.next = some c := Function.update_self _ _ _
  have hcases : ∀ {n d}, (s.addClosure c).closures n = some d →
      (n = s.next ∧ d = c) ∨ s.closures n = some d := by
    intro n d hd
    by_cases hn : n = s.next
    · subst hn
      exact .inl ⟨rfl, (Option.some.inj (hnew.symm.trans hd)).symm⟩
    · exact .inr ((Function.update_of_ne hn _ _).symm.trans hd)
  constructor
  case freshClosure =>
    intro n hn
    exact (Function.update_of_ne (Nat.ne_of_gt hn) _ _).trans
      (h.freshClosure n (Nat.le_of_succ_le hn))
  case freshFrame => exact fun n hn => h.freshFrame n (Nat.le_of_succ_le hn)
  case freshCell => exact fun n hn => h.freshCell n (Nat.le_of_succ_le hn)
  case freshShared => exact fun n hn => h.freshShared n (Nat.le_of_succ_le hn)
  case chunkFrame => exact h.chunkFrame
  case chunkOwner =>
    intro n f owner hf hisChunk howner
    obtain ⟨d, hd, hrest⟩ := h.chunkOwner n f owner hf hisChunk howner
    exact ⟨d, (hold owner (h.closure_lt hd)).trans hd, hrest⟩
  case innerFrame =>
    intro n f hf hisInner
    obtain ⟨hcell, owner, d, howner, hd, hrest⟩ := h.innerFrame n f hf hisInner
    exact ⟨hcell, owner, d, howner, (hold owner (h.closure_lt hd)).trans hd, hrest⟩
  case innerClosure =>
    intro n d hd hisInner
    obtain ⟨rfl, rfl⟩ | hd := hcases hd
    · obtain ⟨hlt, hcaptured, hvalue, hcell⟩ := hinner hisInner
      refine ⟨?_, Nat.lt_succ_of_lt hlt, hcaptured⟩
      have hread : ∀ cell, (s.addClosure d).readUpvalue cell = s.readUpvalue cell := fun _ => rfl
      simp only [closureEnvironmentValue, EnvironmentState.environmentCell, hnew, Option.bind_some,
        hread]
      rcases hsome : d.environmentCell with _ | cell
      · exact hvalue hsome
      · obtain hshared | ⟨-, hclosed⟩ := hcell cell hsome
        · exact h.readUpvalue_shared hshared
        · simp only [readUpvalue, hclosed]
          rfl
    · obtain ⟨hvalue, hlt, hcaptured⟩ := h.innerClosure n d hd hisInner
      exact ⟨closureEnvironmentValue_mono s (s.addClosure c) (fun _ _ hread => hread) (hold n (h.closure_lt hd)) hvalue,
        Nat.lt_succ_of_lt hlt, hcaptured⟩
  case chunkClosure =>
    intro n d hd hisChunk
    obtain ⟨rfl, rfl⟩ | hd := hcases hd
    · exact (hchunk hisChunk).2
    · exact h.chunkClosure n d hd hisChunk
  case cellOf =>
    intro n d cell hd hcell
    obtain ⟨rfl, rfl⟩ | hd := hcases hd
    · rcases hkind : d.isChunk with _ | _
      · obtain ⟨-, -, -, hkinds⟩ := hinner hkind
        exact (hkinds cell hcell).imp (fun hshared => ⟨rfl, hshared⟩) fun hprivate =>
          ⟨hprivate.1, _, hprivate.2⟩
      · simp [(hchunk hkind).1] at hcell
    · exact h.cellOf n d cell hd hcell
  case sharedCell => exact h.sharedCell
  case sharedInjective => exact h.sharedInjective

theorem Coherent.newChunk (h : s.Coherent) (nativeDebug : Bool) (environment : V) :
    (s.newChunk nativeDebug environment).Coherent :=
  h.addClosure (fun _ => ⟨rfl, rfl⟩) fun hinner => nomatch hinner

/-- A cell in use is not the next one. -/
theorem Coherent.cell_ne (h : s.Coherent) {cell : Nat} {c : EnvironmentCell V}
    (hc : s.cells cell = some c) : cell ≠ s.next := by
  rintro rfl
  simp [h.freshCell _ (Nat.le_refl _)] at hc

theorem Coherent.shared_ne (h : s.Coherent) (chunk : Nat) : s.shared chunk ≠ some s.next :=
  fun hcell => Nat.lt_irrefl _ (h.shared_lt hcell).2

theorem Coherent.openRegister (h : s.Coherent) {frame : Nat} {f : EnvironmentFrame V}
    (hf : s.frames frame = some f) (hisChunk : f.isChunk = true) (hcell : f.openCell = none) :
    (s.openRegister frame f).Coherent := by
  obtain ⟨hchunk, hregister, hopen⟩ := h.chunkFrame frame f hf hisChunk
  have hnone : s.shared frame = none := hopen.symm.trans hcell
  have hlt := h.frame_lt hf
  have hread : ∀ cell value, s.readUpvalue cell = some value →
      (s.openRegister frame f).readUpvalue cell = some value := by
    intro cell value
    refine readUpvalue_mono s (s.openRegister frame f) ?_ ?_
    · intro n c hc
      exact (Function.update_of_ne (h.cell_ne hc) _ _).trans hc
    · unfold EnvironmentState.openRegister
      grind [Function.update]
  constructor
  case innerClosure =>
    intro n c hc hisInner
    obtain ⟨hvalue, hlt, hcaptured⟩ := h.innerClosure n c hc hisInner
    refine ⟨closureEnvironmentValue_mono s (s.openRegister frame f) hread rfl hvalue,
      Nat.lt_succ_of_lt hlt, fun cell hsome => ?_⟩
    have hne : c.chunk ≠ frame := by
      intro heq
      simp [← heq, hcaptured cell hsome] at hnone
    exact (Function.update_of_ne hne _ _).trans (hcaptured cell hsome)
  case chunkClosure => exact h.chunkClosure
  all_goals unfold EnvironmentState.openRegister
  case freshClosure => exact fun n hn => h.freshClosure n (Nat.le_of_succ_le hn)
  case freshFrame => grind [h.freshFrame, Function.update]
  case freshCell => grind [h.freshCell, Function.update]
  case freshShared => grind [h.freshShared, Function.update]
  case chunkFrame => grind [h.chunkFrame, Function.update]
  case chunkOwner => grind [h.chunkOwner, h.cell_ne, Function.update]
  case innerFrame => grind [h.innerFrame, Function.update]
  case cellOf => grind [h.cellOf, h.cell_ne, Function.update]
  case sharedCell => grind [h.sharedCell, h.shared_ne, Function.update]
  case sharedInjective => grind [h.sharedInjective, h.shared_ne, Function.update]

theorem Coherent.captureRegister (h : s.Coherent) {frame : Nat} {f : EnvironmentFrame V}
    (hf : s.frames frame = some f) (hisChunk : f.isChunk = true) :
    (s.captureRegister frame f).2.Coherent
      ∧ (s.captureRegister frame f).2.shared frame = some (s.captureRegister frame f).1
      ∧ frame < (s.captureRegister frame f).2.next := by
  obtain ⟨-, -, hopen⟩ := h.chunkFrame frame f hf hisChunk
  unfold EnvironmentState.captureRegister
  rcases hcell : f.openCell with _ | cell
  · exact ⟨h.openRegister hf hisChunk hcell, Function.update_self _ _ _,
      Nat.lt_succ_of_lt (h.frame_lt hf)⟩
  · exact ⟨h, hopen.symm.trans hcell, h.frame_lt hf⟩

/-- The closure that a frame runs is of the frame's kind. -/
theorem Coherent.owner_kind (h : s.Coherent) {frame owner : Nat} {f : EnvironmentFrame V}
    (hf : s.frames frame = some f) (howner : f.closure = some owner) :
    ∃ c, s.closures owner = some c ∧ c.isChunk = f.isChunk
      ∧ (f.isChunk = false → c.chunk = f.chunk) := by
  rcases hkind : f.isChunk with _ | _
  · obtain ⟨-, owner', c, howner', hc, hcc, hchunk, -⟩ := h.innerFrame frame f hf hkind
    obtain rfl : owner = owner' := Option.some.inj (howner.symm.trans howner')
    exact ⟨c, hc, hcc, fun _ => hchunk⟩
  · obtain ⟨c, hc, hcc, -⟩ := h.chunkOwner frame f owner hf hkind howner
    exact ⟨c, hc, hcc, fun hinner => nomatch hinner⟩

/-- Giving a closure a cell keeps the state coherent if all frames that run the closure have the
    same environment. -/
theorem Coherent.addEnvironmentCell (h : s.Coherent) {frame owner : Nat}
    {f : EnvironmentFrame V} (hf : s.frames frame = some f) (howner : f.closure = some owner)
    (hnone : s.environmentCell owner = none)
    (hclean : f.isChunk = true → ∀ other g, s.frames other = some g → g.closure = some owner →
      s.current g.chunk = s.current f.chunk) :
    (s.addEnvironmentCell owner (s.current f.chunk)).Coherent := by
  obtain ⟨c, hc, hkind, hchunk⟩ := h.owner_kind hf howner
  have hnone : c.environmentCell = none := by
    simpa [EnvironmentState.environmentCell, hc] using hnone
  have hlt := h.closure_lt hc
  -- the closure afterwards
  have hnew : (s.addEnvironmentCell owner (s.current f.chunk)).closures owner
      = some { c with environment := none, environmentCell := some s.next } := by
    simp [EnvironmentState.addEnvironmentCell, hc]
  have hcells : ∀ n d, s.cells n = some d →
      (s.addEnvironmentCell owner (s.current f.chunk)).cells n = some d := fun n d hd =>
    (Function.update_of_ne (h.cell_ne hd) _ _).trans hd
  have hcell : (s.addEnvironmentCell owner (s.current f.chunk)).cells s.next
      = some (.closed (s.current f.chunk)) := Function.update_self _ _ _
  have hcases : ∀ {n d}, (s.addEnvironmentCell owner (s.current f.chunk)).closures n = some d →
      (n = owner ∧ d = { c with environment := none, environmentCell := some s.next })
        ∨ (n ≠ owner ∧ s.closures n = some d) := by
    intro n d hd
    by_cases hn : n = owner
    · subst hn
      exact .inl ⟨rfl, (Option.some.inj (hnew.symm.trans hd)).symm⟩
    · exact .inr ⟨hn, (Function.update_of_ne hn _ _).symm.trans hd⟩
  have hother : ∀ {n}, n ≠ owner →
      (s.addEnvironmentCell owner (s.current f.chunk)).closures n = s.closures n := fun hn =>
    Function.update_of_ne hn _ _
  constructor
  case freshClosure =>
    intro n hn
    exact (hother (Nat.ne_of_gt (Nat.lt_of_lt_of_le (Nat.lt_succ_of_lt hlt) hn))).trans
      (h.freshClosure n (Nat.le_of_succ_le hn))
  case freshFrame => exact fun n hn => h.freshFrame n (Nat.le_of_succ_le hn)
  case freshCell =>
    intro n hn
    exact (Function.update_of_ne (Nat.ne_of_gt hn) _ _).trans
      (h.freshCell n (Nat.le_of_succ_le hn))
  case freshShared => exact fun n hn => h.freshShared n (Nat.le_of_succ_le hn)
  case chunkFrame => exact h.chunkFrame
  case chunkOwner =>
    intro n g o hg hisChunk ho
    obtain ⟨d, hd, hdd, hclosed⟩ := h.chunkOwner n g o hg hisChunk ho
    by_cases heq : o = owner
    · subst heq
      obtain rfl : d = c := Option.some.inj (hd.symm.trans hc)
      refine ⟨_, hnew, hdd, ?_⟩
      rintro cell ⟨⟩
      obtain ⟨rfl, -, -⟩ := h.chunkFrame n g hg hisChunk
      rw [hcell]
      exact congrArg (some ∘ EnvironmentCell.closed)
        (hclean (hkind.symm.trans hdd) _ g hg ho).symm
    · exact ⟨d, (hother heq).trans hd, hdd, fun cell hsome => hcells _ _ (hclosed cell hsome)⟩
  case innerFrame =>
    intro n g hg hisInner
    obtain ⟨hopen, o, d, ho, hd, hdd, hdchunk, hregister⟩ := h.innerFrame n g hg hisInner
    by_cases heq : o = owner
    · subst heq
      obtain rfl : d = c := Option.some.inj (hd.symm.trans hc)
      exact ⟨hopen, o, _, ho, hnew, hdd, hdchunk, fun hcontra => nomatch hcontra⟩
    · exact ⟨hopen, o, d, ho, (hother heq).trans hd, hdd, hdchunk, hregister⟩
  case innerClosure =>
    intro n d hd hisInner
    obtain ⟨rfl, rfl⟩ | ⟨hn, hd⟩ := hcases hd
    · obtain ⟨-, hclt, hcaptured⟩ := h.innerClosure n c hc hisInner
      refine ⟨?_, Nat.lt_succ_of_lt hclt, hcaptured⟩
      have hsame : c.chunk = f.chunk := hchunk (hkind.symm.trans hisInner)
      simp only [closureEnvironmentValue, EnvironmentState.environmentCell, hnew, Option.bind_some,
        readUpvalue, hcell, hsame]
      rfl
    · obtain ⟨hvalue, hdlt, hcaptured⟩ := h.innerClosure n d hd hisInner
      refine ⟨closureEnvironmentValue_mono s (s.addEnvironmentCell owner (s.current f.chunk)) ?_
        (hother hn) hvalue, Nat.lt_succ_of_lt hdlt, hcaptured⟩
      intro cell value
      exact readUpvalue_mono s (s.addEnvironmentCell owner (s.current f.chunk)) hcells
        fun m g hg => ⟨g, hg, rfl⟩
  case chunkClosure =>
    intro n d hd hisChunk
    obtain ⟨rfl, rfl⟩ | ⟨-, hd⟩ := hcases hd
    · exact h.chunkClosure n c hc hisChunk
    · exact h.chunkClosure n d hd hisChunk
  case cellOf =>
    intro n d cell hd hsome
    obtain ⟨rfl, rfl⟩ | ⟨-, hd⟩ := hcases hd
    · cases hsome
      exact .inr ⟨h.shared_ne, _, hcell⟩
    · obtain hshared | ⟨hne, value, hvalue⟩ := h.cellOf n d cell hd hsome
      · exact .inl hshared
      · exact .inr ⟨hne, value, hcells _ _ hvalue⟩
  case sharedCell =>
    intro chunk cell hshared
    obtain ⟨hopen, hframe⟩ | ⟨hclosed, hframe⟩ := h.sharedCell chunk cell hshared
    · exact .inl ⟨hcells _ _ hopen, hframe⟩
    · exact .inr ⟨hcells _ _ hclosed, hframe⟩
  case sharedInjective => exact h.sharedInjective

theorem Coherent.chunk_lt (h : s.Coherent) {frame : Nat} {f : EnvironmentFrame V}
    (hf : s.frames frame = some f) : f.chunk < s.next := by
  rcases hkind : f.isChunk with _ | _
  · obtain ⟨-, owner, c, -, hc, hcc, hchunk, -⟩ := h.innerFrame frame f hf hkind
    exact hchunk ▸ (h.innerClosure owner c hc hcc).2.1
  · exact (h.chunkFrame frame f hf hkind).1 ▸ h.frame_lt hf

/-- The cell of the closure that a frame runs is that of the chunk's `_ENV`, or holds its value. -/
theorem Coherent.ownerCell (h : s.Coherent) {frame owner cell : Nat} {f : EnvironmentFrame V}
    (hf : s.frames frame = some f) (howner : f.closure = some owner)
    (hcell : s.environmentCell owner = some cell) :
    s.shared f.chunk = some cell
      ∨ ((∀ chunk, s.shared chunk ≠ some cell)
        ∧ s.cells cell = some (.closed (s.current f.chunk))) := by
  obtain ⟨c, hc, hkind, hchunk⟩ := h.owner_kind hf howner
  have hsome : c.environmentCell = some cell := by
    simpa [EnvironmentState.environmentCell, hc] using hcell
  obtain ⟨hinner, hshared⟩ | ⟨hprivate, value, hvalue⟩ := h.cellOf owner c cell hc hsome
  · exact .inl (hchunk (hkind.symm.trans hinner) ▸ hshared)
  · refine .inr ⟨hprivate, ?_⟩
    have hread := h.readEnvironmentRegister_eq hf
    simp only [EnvironmentState.readEnvironmentRegister, hf, Option.bind_some, howner, hcell,
      readUpvalue, hvalue] at hread
    rw [hvalue, Option.some.inj hread]

theorem Coherent.closureEnvironmentCell (h : s.Coherent) {frame owner : Nat}
    {f : EnvironmentFrame V} (hf : s.frames frame = some f) (howner : f.closure = some owner)
    (hclean : f.isChunk = true → s.environmentCell owner = none →
      ∀ other g, s.frames other = some g → g.closure = some owner →
        s.current g.chunk = s.current f.chunk) {cell : Nat}
    (hs : s.closureEnvironmentCell owner (s.current f.chunk) = (cell, s')) :
    s'.Coherent ∧ s'.frames frame = some f ∧ s'.current = s.current
      ∧ s'.environmentCell owner = some cell := by
  unfold EnvironmentState.closureEnvironmentCell at hs
  rcases hcell : s.environmentCell owner with _ | existing
  · rw [hcell] at hs
    cases hs
    obtain ⟨c, hc, -, -⟩ := h.owner_kind hf howner
    refine ⟨h.addEnvironmentCell hf howner hcell fun hkind => hclean hkind hcell, hf, rfl, ?_⟩
    simp [EnvironmentState.environmentCell, EnvironmentState.addEnvironmentCell, hc]
  · rw [hcell] at hs
    cases hs
    exact ⟨h, hf, rfl, hcell⟩

theorem Coherent.makeClosure (h : s.Coherent) {frame : Nat} {source : EnvironmentSource}
    (hclean : s.Clean (.makeClosure frame source)) (hs : s.makeClosure frame source = some s') :
    s'.Coherent := by
  simp only [EnvironmentState.makeClosure, Option.bind_eq_some_iff] at hs
  obtain ⟨f, hf, hs⟩ := hs
  cases source with
  | rootExternal => cases hs
  | parentFrame parent register =>
    simp only [h.readEnvironmentRegister_eq hf] at hs
    split at hs
    · -- a cell of the closure that runs
      rename_i owner hdebug howner
      rcases hpair : s.closureEnvironmentCell owner (s.current f.chunk) with ⟨cell, t⟩
      simp only [Option.bind_eq_bind, Option.bind_some, hpair] at hs
      cases hs
      obtain ⟨ht, hft, hcurrent, hcell⟩ := h.closureEnvironmentCell hf howner
        (fun hkind hnone => hclean f owner hf hdebug hkind howner hnone) hpair
      refine ht.addClosure (fun hchunk => nomatch hchunk) fun _ =>
        ⟨ht.chunk_lt hft, (fun _ hcontra => nomatch hcontra), (fun hcontra => nomatch hcontra), ?_⟩
      rintro _ ⟨⟩
      exact ht.ownerCell hft howner hcell
    · -- a copy
      cases hs
      exact h.addClosure (fun hchunk => nomatch hchunk) fun _ =>
        ⟨h.chunk_lt hf, (fun _ hcontra => nomatch hcontra), fun _ => rfl,
          fun _ hcontra => nomatch hcontra⟩
  | parentLocal upvalue =>
    by_cases hkind : f.isChunk = true
    · simp only [hkind, if_true, Option.some.injEq] at hs
      cases hs
      obtain ⟨ht, hshared, hlt⟩ := h.captureRegister hf hkind
      obtain ⟨hchunk, -, -⟩ := h.chunkFrame frame f hf hkind
      rw [← hchunk] at hshared hlt
      refine ht.addClosure (fun hcontra => nomatch hcontra) fun _ =>
        ⟨hchunk ▸ hlt, ?_, (fun hcontra => nomatch hcontra), ?_⟩
      · rintro _ ⟨⟩
        exact hchunk ▸ hshared
      · rintro _ ⟨⟩
        exact .inl (hchunk ▸ hshared)
    · simp [hkind] at hs
  | parentUpvalue upvalue =>
    simp only [Option.bind_eq_bind, Option.bind_eq_some_iff] at hs
    obtain ⟨owner, howner, cell, ⟨c, hc, hcell⟩, hs⟩ := hs
    cases hs
    obtain ⟨d, hd, hkind, hchunk⟩ := h.owner_kind hf howner
    obtain rfl : c = d := Option.some.inj (hc.symm.trans hd)
    have hinner : c.isChunk = false := by
      rcases hcc : c.isChunk with _ | _
      · rfl
      · simp [h.chunkClosure owner c hc hcc] at hcell
    have hshared : s.shared f.chunk = some cell :=
      hchunk (hkind.symm.trans hinner) ▸ (h.innerClosure owner c hc hinner).2.2 cell hcell
    refine h.addClosure (fun hcontra => nomatch hcontra) fun _ =>
      ⟨h.chunk_lt hf, ?_, (fun hcontra => nomatch hcontra), ?_⟩
    · rintro _ ⟨⟩
      exact hshared
    · rintro _ ⟨⟩
      exact .inl hshared

theorem Coherent.collect (h : s.Coherent) {closure : Nat} (hs : s.Possible (.collect closure)) :
    (s.collect closure).Coherent := by
  have hcases : ∀ {n c}, (s.collect closure).closures n = some c → s.closures n = some c := by
    intro n c hc
    by_cases hn : n = closure
    · subst hn
      simp [EnvironmentState.collect] at hc
    · exact (Function.update_of_ne hn _ _).symm.trans hc
  have hkeep : ∀ {frame f owner}, s.frames frame = some f → f.closure = some owner →
      (s.collect closure).closures owner = s.closures owner := by
    intro frame f owner hf howner
    exact Function.update_of_ne (fun heq => hs frame f hf (howner.trans (congrArg some heq))) _ _
  constructor
  case freshClosure =>
    intro n hn
    by_cases heq : n = closure
    · subst heq
      exact Function.update_self _ _ _
    · exact (Function.update_of_ne heq _ _).trans (h.freshClosure n hn)
  case freshFrame => exact h.freshFrame
  case freshCell => exact h.freshCell
  case freshShared => exact h.freshShared
  case chunkFrame => exact h.chunkFrame
  case chunkOwner =>
    intro n f owner hf hisChunk howner
    rw [hkeep hf howner]
    exact h.chunkOwner n f owner hf hisChunk howner
  case innerFrame =>
    intro n f hf hisInner
    obtain ⟨hcell, owner, d, howner, hd, hrest⟩ := h.innerFrame n f hf hisInner
    exact ⟨hcell, owner, d, howner, (hkeep hf howner).trans hd, hrest⟩
  case innerClosure =>
    intro n c hc hisInner
    obtain ⟨hvalue, hrest⟩ := h.innerClosure n c (hcases hc) hisInner
    exact ⟨closureEnvironmentValue_mono s (s.collect closure) (fun _ _ hread => hread)
      (hc.trans (hcases hc).symm) hvalue, hrest⟩
  case chunkClosure => exact fun n c hc => h.chunkClosure n c (hcases hc)
  case cellOf => exact fun n c cell hc => h.cellOf n c cell (hcases hc)
  case sharedCell => exact h.sharedCell
  case sharedInjective => exact h.sharedInjective

/-- How a function reads its environment: from a copy, through the cell that captures the `_ENV`,
    or from another cell. -/
theorem Coherent.innerKind (h : s.Coherent) {n : Nat} {c : EnvironmentClosure V}
    (hc : s.closures n = some c) (hinner : c.isChunk = false) :
    (c.environmentCell = none ∧ c.environment = some (s.current c.chunk))
      ∨ (∃ cell, c.environmentCell = some cell ∧ s.shared c.chunk = some cell)
      ∨ ∃ cell, c.environmentCell = some cell ∧ (∀ chunk, s.shared chunk ≠ some cell)
        ∧ s.cells cell = some (.closed (s.current c.chunk)) := by
  obtain ⟨hvalue, -, -⟩ := h.innerClosure n c hc hinner
  rcases hcell : c.environmentCell with _ | cell
  · simp only [closureEnvironmentValue, EnvironmentState.environmentCell, hc, Option.bind_some,
      hcell] at hvalue
    exact .inl ⟨rfl, hvalue⟩
  · refine .inr ?_
    obtain ⟨-, hshared⟩ | ⟨hprivate, value, hclosed⟩ := h.cellOf n c cell hc hcell
    · exact .inl ⟨cell, rfl, hshared⟩
    · simp only [closureEnvironmentValue, EnvironmentState.environmentCell, hc, Option.bind_some,
        hcell, readUpvalue, hclosed, Option.some.injEq] at hvalue
      exact .inr ⟨cell, rfl, hprivate, hvalue ▸ hclosed⟩

theorem closureEnvironmentValue_copy {n : Nat} {c : EnvironmentClosure V}
    (hc : s.closures n = some c) (hcell : c.environmentCell = none) :
    s.closureEnvironmentValue n = c.environment := by
  simp [closureEnvironmentValue, EnvironmentState.environmentCell, hc, hcell]

theorem closureEnvironmentValue_cell {n cell : Nat} {c : EnvironmentClosure V}
    (hc : s.closures n = some c) (hcell : c.environmentCell = some cell) :
    s.closureEnvironmentValue n = s.readUpvalue cell := by
  simp [closureEnvironmentValue, EnvironmentState.environmentCell, hc, hcell]

/-- A step that changes registers, cells and the `_ENV` of activations only: the state stays
    coherent if the cells that capture an `_ENV` follow it, other cells stay, and no copy is out
    of date. -/
theorem Coherent.update (h : s.Coherent) (hnext : s'.next = s.next)
    (hclosures : s'.closures = s.closures) (hshared : s'.shared = s.shared)
    (hframes : ∀ n f', s'.frames n = some f' → ∃ f, s.frames n = some f
      ∧ f' = { f with register := if f.isChunk then s'.current n else f.register })
    (hfresh : ∀ n, s.next ≤ n → s'.cells n = none)
    (hcells : ∀ chunk cell, s.shared chunk = some cell →
      (s'.cells cell = some (.open chunk) ∧ ∃ f, s'.frames chunk = some f ∧ f.isChunk = true)
        ∨ (s'.cells cell = some (.closed (s'.current chunk)) ∧ s'.frames chunk = none))
    (hprivate : ∀ cell value, (∀ chunk, s.shared chunk ≠ some cell) →
      s.cells cell = some (.closed value) → s'.cells cell = some (.closed value))
    (hcopy : ∀ chunk, s'.current chunk = s.current chunk ∨ ¬ s.HoldsCopy chunk) :
    s'.Coherent := by
  have hframe : ∀ {n f'}, s'.frames n = some f' → f'.isChunk = true →
      f'.register = s'.current n := by
    intro n f' hf' hkind
    obtain ⟨f, hf, rfl⟩ := hframes n f' hf'
    exact if_pos hkind
  have hread : ∀ {chunk cell}, s.shared chunk = some cell →
      s'.readUpvalue cell = some (s'.current chunk) := by
    intro chunk cell hcell
    obtain ⟨hopen, f, hf, hkind⟩ | ⟨hclosed, -⟩ := hcells chunk cell hcell
    · simp [readUpvalue, hopen, hf, hframe hf hkind]
    · simp [readUpvalue, hclosed]
  constructor
  case freshClosure => rw [hnext, hclosures]; exact h.freshClosure
  case freshFrame =>
    intro n hn
    rcases hf' : s'.frames n with _ | f'
    · rfl
    · obtain ⟨f, hf, -⟩ := hframes n f' hf'
      exact absurd (h.frame_lt hf) (Nat.not_lt.mpr (hnext ▸ hn))
  case freshCell => rw [hnext]; exact hfresh
  case freshShared => rw [hnext, hshared]; exact h.freshShared
  case chunkFrame =>
    intro n f' hf' hkind
    obtain ⟨f, hf, rfl⟩ := hframes n f' hf'
    obtain ⟨hchunk, -, hopen⟩ := h.chunkFrame n f hf hkind
    exact ⟨hchunk, if_pos hkind, hshared ▸ hopen⟩
  case chunkOwner =>
    intro n f' owner hf' hkind howner
    obtain ⟨f, hf, rfl⟩ := hframes n f' hf'
    obtain ⟨c, hc, hcc, hclosed⟩ := h.chunkOwner n f owner hf hkind howner
    refine ⟨c, hclosures ▸ hc, hcc, fun cell hcell => ?_⟩
    have hp : ∀ chunk, s.shared chunk ≠ some cell := by
      obtain ⟨hinner, -⟩ | ⟨hp, -⟩ := h.cellOf owner c cell hc hcell
      · simp [hcc] at hinner
      · exact hp
    obtain hsame | hno := hcopy n
    · rw [hsame]
      exact hprivate _ _ hp (hclosed cell hcell)
    · refine absurd (.inr ⟨f, owner, cell, hf, hkind, howner, ?_⟩) hno
      simp [EnvironmentState.environmentCell, hc, hcell]
  case innerFrame =>
    intro n f' hf' hinner
    obtain ⟨f, hf, rfl⟩ := hframes n f' hf'
    obtain ⟨hopen, owner, c, howner, hc, hcc, hchunk, hregister⟩ := h.innerFrame n f hf hinner
    refine ⟨hopen, owner, c, howner, hclosures ▸ hc, hcc, hchunk, fun hcell => ?_⟩
    have hinner : f.isChunk = false := hinner
    simp only [hinner, Bool.false_eq_true, if_false]
    obtain hsame | hno := hcopy f.chunk
    · exact (hregister hcell).trans hsame.symm
    · exact absurd (.inl ⟨owner, c, hc, hcc, hchunk, by simp [hcell]⟩) hno
  case innerClosure =>
    intro n c hc hinner
    rw [hclosures] at hc
    obtain ⟨-, hlt, hcaptured⟩ := h.innerClosure n c hc hinner
    refine ⟨?_, hnext ▸ hlt, hshared ▸ hcaptured⟩
    have hc' : s'.closures n = some c := hclosures ▸ hc
    obtain ⟨hcell, hvalue⟩ | ⟨cell, hcell, hcshared⟩ | ⟨cell, hcell, hp, hclosed⟩ :=
      h.innerKind hc hinner
    · obtain hsame | hno := hcopy c.chunk
      · rw [closureEnvironmentValue_copy hc' hcell, hvalue, hsame]
      · exact absurd (.inl ⟨n, c, hc, hinner, rfl, by simp [hcell]⟩) hno
    · rw [closureEnvironmentValue_cell hc' hcell]
      exact hread hcshared
    · obtain hsame | hno := hcopy c.chunk
      · rw [closureEnvironmentValue_cell hc' hcell, hsame]
        simp [readUpvalue, hprivate cell _ hp hclosed]
      · refine absurd (.inl ⟨n, c, hc, hinner, rfl, ?_⟩) hno
        intro cell' hcell'
        exact hp c.chunk ∘ (·.trans (hcell'.symm.trans hcell))
  case chunkClosure => rw [hclosures]; exact h.chunkClosure
  case cellOf =>
    intro n c cell hc hcell
    rw [hclosures] at hc
    obtain hinner | ⟨hp, value, hvalue⟩ := h.cellOf n c cell hc hcell
    · exact .inl (hshared ▸ hinner)
    · exact .inr ⟨hshared ▸ hp, value, hprivate cell value hp hvalue⟩
  case sharedCell => rw [hshared]; exact hcells
  case sharedInjective => rw [hshared]; exact h.sharedInjective

/-- The register of a frame of a chunk is its `_ENV`. -/
theorem Coherent.frame_eq (h : s.Coherent) {n : Nat} {f : EnvironmentFrame V}
    (hf : s.frames n = some f) :
    f = { f with register := if f.isChunk then s.current n else f.register } := by
  by_cases hkind : f.isChunk = true
  · obtain ⟨-, hregister, -⟩ := h.chunkFrame n f hf hkind
    rw [if_pos hkind, ← hregister]
  · rw [if_neg hkind]

theorem Coherent.leave (h : s.Coherent) {frame : Nat} (hs : s.leave frame = some s') :
    s'.Coherent := by
  simp only [EnvironmentState.leave, Option.map_eq_some_iff] at hs
  obtain ⟨f, hf, rfl⟩ := hs
  have hopen : ∀ cell, f.openCell = some cell →
      s.shared frame = some cell ∧ f.register = s.current frame := by
    intro cell hcell
    rcases hkind : f.isChunk with _ | _
    · simp [(h.innerFrame frame f hf hkind).1] at hcell
    · obtain ⟨-, hregister, heq⟩ := h.chunkFrame frame f hf hkind
      exact ⟨heq ▸ hcell, hregister⟩
  have hkeep : ∀ cell, (∀ c, f.openCell = some c → c ≠ cell) →
      (match f.openCell with
        | some cell => Function.update s.cells cell (some (.closed f.register))
        | none => s.cells) cell = s.cells cell := by
    intro cell hne
    rcases hcell : f.openCell with _ | c
    · rfl
    · exact Function.update_of_ne (hne c hcell).symm _ _
  refine h.update rfl rfl rfl ?_ ?_ ?_ ?_ fun _ => .inl rfl
  · intro n f' hf'
    by_cases hn : n = frame
    · subst hn
      simp at hf'
    · have hf' : s.frames n = some f' := (Function.update_of_ne hn _ _).symm.trans hf'
      exact ⟨f', hf', h.frame_eq hf'⟩
  · intro n hn
    refine (hkeep n fun c hc heq => ?_).trans (h.freshCell n hn)
    exact absurd (h.shared_lt (hopen c hc).1).2 (Nat.not_lt.mpr (heq ▸ hn))
  · intro chunk cell hcell
    by_cases hchunk : chunk = frame
    · subst hchunk
      obtain ⟨hcellOpen, g, hg, hkind⟩ | ⟨-, hnone⟩ := h.sharedCell chunk cell hcell
      · obtain rfl : f = g := Option.some.inj (hf.symm.trans hg)
        obtain ⟨-, hregister, heq⟩ := h.chunkFrame chunk f hf hkind
        refine .inr ⟨?_, Function.update_self _ _ _⟩
        simp [heq, hcell, hregister]
      · simp [hnone] at hf
    · have hne : ∀ c, f.openCell = some c → c ≠ cell := by
        rintro c hc rfl
        exact hchunk (h.sharedInjective chunk frame c hcell (hopen c hc).1)
      dsimp only
      rw [hkeep cell hne, Function.update_of_ne hchunk]
      exact h.sharedCell chunk cell hcell
  · intro cell value hp hclosed
    refine (hkeep cell fun c hc heq => ?_).trans hclosed
    exact hp frame (heq ▸ (hopen c hc).1)

/-- An assignment to the register of a chunk. -/
theorem Coherent.assignRegister (h : s.Coherent) {chunk : Nat} {f : EnvironmentFrame V} {value : V}
    (hf : s.frames chunk = some f) (hkind : f.isChunk = true)
    (hcopy : value = s.current chunk ∨ ¬ s.HoldsCopy chunk) :
    Coherent { s with
      frames := Function.update s.frames chunk (some { f with register := value })
      current := Function.update s.current chunk value } := by
  refine h.update rfl rfl rfl ?_ h.freshCell ?_ (fun _ _ _ hclosed => hclosed) ?_
  · intro n f' hf'
    by_cases hn : n = chunk
    · subst hn
      simp only [Function.update_self, Option.some.injEq] at hf'
      exact ⟨f, hf, by simp [← hf', hkind]⟩
    · have hf' : s.frames n = some f' := (Function.update_of_ne hn _ _).symm.trans hf'
      refine ⟨f', hf', ?_⟩
      dsimp only
      rw [Function.update_of_ne hn]
      exact h.frame_eq hf'
  · intro r cell hcell
    by_cases hr : r = chunk
    · subst hr
      obtain ⟨hopen, -⟩ | ⟨-, hnone⟩ := h.sharedCell r cell hcell
      · exact .inl ⟨hopen, _, Function.update_self _ _ _, hkind⟩
      · simp [hnone] at hf
    · simp only [Function.update_of_ne hr]
      exact h.sharedCell r cell hcell
  · intro r
    by_cases hr : r = chunk
    · subst hr
      simpa using hcopy
    · exact .inl (Function.update_of_ne hr _ _)

/-- An assignment to the closed cell of an activation that has ended. -/
theorem Coherent.assignClosed (h : s.Coherent) {chunk cell : Nat} {value : V}
    (hcell : s.shared chunk = some cell) (hframe : s.frames chunk = none)
    (hcopy : value = s.current chunk ∨ ¬ s.HoldsCopy chunk) :
    Coherent { s with
      cells := Function.update s.cells cell (some (.closed value))
      current := Function.update s.current chunk value } := by
  refine h.update rfl rfl rfl ?_ ?_ ?_ ?_ ?_
  · intro n f hf
    have hn : n ≠ chunk := by
      rintro rfl
      simp [hframe] at hf
    refine ⟨f, hf, ?_⟩
    dsimp only
    rw [Function.update_of_ne hn]
    exact h.frame_eq hf
  · intro n hn
    refine (Function.update_of_ne ?_ _ _).trans (h.freshCell n hn)
    exact (Nat.ne_of_lt (Nat.lt_of_lt_of_le (h.shared_lt hcell).2 hn)).symm
  · intro r cell' hcell'
    by_cases hr : r = chunk
    · subst hr
      obtain rfl : cell = cell' := Option.some.inj (hcell.symm.trans hcell')
      exact .inr ⟨by simp, hframe⟩
    · have hne : cell' ≠ cell := by
        rintro rfl
        exact hr (h.sharedInjective r chunk cell' hcell' hcell)
      simp only [Function.update_of_ne hr, Function.update_of_ne hne]
      exact h.sharedCell r cell' hcell'
  · intro cell' stored hp hclosed
    have hne : cell' ≠ cell := by
      rintro rfl
      exact hp chunk hcell
    exact (Function.update_of_ne hne _ _).trans hclosed
  · intro r
    by_cases hr : r = chunk
    · subst hr
      simpa using hcopy
    · exact .inl (Function.update_of_ne hr _ _)

/-- What an assignment does: it changes the register of the chunk, or the cell that the chunk left
    behind. -/
theorem Coherent.assign_eq (h : s.Coherent) {frame : Nat} {value : V} {f : EnvironmentFrame V}
    (hf : s.frames frame = some f) (hs : s.assign frame value = some s') :
    (∃ g, s.frames f.chunk = some g ∧ g.isChunk = true ∧ s' = { s with
        frames := Function.update s.frames f.chunk (some { g with register := value })
        current := Function.update s.current f.chunk value })
      ∨ ∃ cell, s.shared f.chunk = some cell ∧ s.frames f.chunk = none ∧ s' = { s with
        cells := Function.update s.cells cell (some (.closed value))
        current := Function.update s.current f.chunk value } := by
  simp only [EnvironmentState.assign, hf, Option.bind_some] at hs
  rcases hkind : f.isChunk with _ | _
  · simp only [hkind, Bool.false_eq_true, if_false, Option.bind_eq_bind,
      Option.bind_eq_some_iff] at hs
    obtain ⟨owner, howner, cell, ⟨c, hc, hcell⟩, t, ht, hs⟩ := hs
    cases hs
    obtain ⟨d, hd, hdd, hchunk⟩ := h.owner_kind hf howner
    obtain rfl : c = d := Option.some.inj (hc.symm.trans hd)
    have hshared : s.shared f.chunk = some cell :=
      hchunk hkind ▸ (h.innerClosure owner c hc (hdd.trans hkind)).2.2 cell hcell
    obtain ⟨hopen, g, hg, hgkind⟩ | ⟨hclosed, hnone⟩ := h.sharedCell f.chunk cell hshared
    · simp only [writeUpvalue, hopen, hg, Option.map_some, Option.some.injEq] at ht
      cases ht
      exact .inl ⟨g, hg, hgkind, rfl⟩
    · simp only [writeUpvalue, hclosed, Option.some.injEq] at ht
      cases ht
      exact .inr ⟨cell, hshared, hnone, rfl⟩
  · obtain ⟨rfl, -, -⟩ := h.chunkFrame frame f hf hkind
    rw [if_pos hkind] at hs
    cases hs
    exact .inl ⟨f, hf, hkind, rfl⟩

theorem Coherent.assign (h : s.Coherent) {frame : Nat} {value : V}
    (hclean : s.Clean (.assign frame value)) (hs : s.assign frame value = some s') :
    s'.Coherent := by
  rcases hf : s.frames frame with _ | f
  · simp [EnvironmentState.assign, hf] at hs
  · obtain ⟨g, hg, hkind, rfl⟩ | ⟨cell, hshared, hnone, rfl⟩ := h.assign_eq hf hs
    · exact h.assignRegister hg hkind (hclean f hf)
    · exact h.assignClosed hshared hnone (hclean f hf)

/-- A copy in two coherent states has the value of the `_ENV` in both. -/
theorem Coherent.current_of_copy (h : s.Coherent) (h' : s'.Coherent) {chunk : Nat}
    (hclosures : s'.closures = s.closures)
    (hprivate : ∀ cell value, (∀ chunk, s.shared chunk ≠ some cell) →
      s.cells cell = some (.closed value) → s'.cells cell = some (.closed value))
    (hframes : ∀ g, s.frames chunk = some g → ∃ g', s'.frames chunk = some g'
      ∧ g'.closure = g.closure ∧ g'.isChunk = g.isChunk)
    (hcopy : s.HoldsCopy chunk) : s'.current chunk = s.current chunk := by
  obtain ⟨n, c, hc, hinner, rfl, hother⟩ | ⟨g, owner, cell, hg, hkind, howner, hcell⟩ := hcopy
  · have hc' : s'.closures n = some c := hclosures ▸ hc
    obtain ⟨hnone, hvalue⟩ | ⟨cell, hcell, hcshared⟩ | ⟨cell, hcell, hp, hclosed⟩ :=
      h.innerKind hc hinner
    · have hread := (h'.innerClosure n c hc' hinner).1
      rw [closureEnvironmentValue_copy hc' hnone, hvalue] at hread
      exact (Option.some.inj hread).symm
    · exact absurd hcshared (hother cell hcell)
    · have hread := (h'.innerClosure n c hc' hinner).1
      rw [closureEnvironmentValue_cell hc' hcell] at hread
      simp only [readUpvalue, hprivate cell _ hp hclosed, Option.some.injEq] at hread
      exact hread.symm
  · obtain ⟨g', hg', hclosure', hkind'⟩ := hframes g hg
    obtain ⟨c, hc, hcc, hclosed⟩ := h.chunkOwner chunk g owner hg hkind howner
    obtain ⟨c', hc', -, hclosed'⟩ := h'.chunkOwner chunk g' owner hg' (hkind'.trans hkind)
      (hclosure'.trans howner)
    obtain rfl : c = c' := Option.some.inj ((hclosures ▸ hc).symm.trans hc')
    have hsome : c.environmentCell = some cell := by
      simpa [EnvironmentState.environmentCell, hc] using hcell
    have hp : ∀ chunk, s.shared chunk ≠ some cell := by
      obtain ⟨hinner, -⟩ | ⟨hp, -⟩ := h.cellOf owner c cell hc hsome
      · simp [hcc] at hinner
      · exact hp
    have hsame := (hclosed' cell hsome).symm.trans (hprivate cell _ hp (hclosed cell hsome))
    simpa using hsame

theorem Coherent.assign_iff (h : s.Coherent) {frame : Nat} {value : V}
    (hs : s.assign frame value = some s') : s'.Coherent ↔ s.Clean (.assign frame value) := by
  refine ⟨fun h' f hf => ?_, fun hclean => h.assign hclean hs⟩
  by_cases hcopy : s.HoldsCopy f.chunk
  · refine .inl ?_
    obtain ⟨g, hg, hkind, rfl⟩ | ⟨cell, hshared, hnone, rfl⟩ := h.assign_eq hf hs
    · have hsame := h.current_of_copy h' rfl (fun _ _ _ hclosed => hclosed)
        (fun g' hg' => ⟨_, Function.update_self _ _ _,
          by rw [Option.some.inj (hg.symm.trans hg')], by
            rw [Option.some.inj (hg.symm.trans hg')]⟩) hcopy
      simpa using hsame
    · have hsame := h.current_of_copy h' rfl
        (fun cell' stored hp hclosed => (Function.update_of_ne
          (fun heq => hp f.chunk (hshared.trans (congrArg some heq.symm))) _ _).trans hclosed)
        (fun g' hg' => ⟨g', hg', rfl, rfl⟩) hcopy
      simpa using hsame
  · exact .inr hcopy

theorem Coherent.makeClosure_iff (h : s.Coherent) {frame : Nat} {source : EnvironmentSource}
    (hs : s.makeClosure frame source = some s') :
    s'.Coherent ↔ s.Clean (.makeClosure frame source) := by
  refine ⟨fun h' => ?_, fun hclean => h.makeClosure hclean hs⟩
  cases source with
  | parentFrame parent register =>
    intro f owner hf hdebug hkind howner hnone other g hg hgowner
    obtain ⟨c, hc, hcc, -⟩ := h.owner_kind hf howner
    obtain ⟨d, hd, hdd, -⟩ := h.owner_kind hg hgowner
    obtain rfl : c = d := Option.some.inj (hc.symm.trans hd)
    have hread := h.readEnvironmentRegister_eq hf
    simp only [EnvironmentState.makeClosure, hf, Option.bind_some, hread, hdebug, howner,
      EnvironmentState.closureEnvironmentCell, hnone, Option.bind_eq_bind] at hs
    cases hs
    -- afterwards both frames run a closure with one cell
    have hlt := Nat.lt_succ_of_lt (h.closure_lt hc)
    obtain ⟨e, he, -, hclosed⟩ := h'.chunkOwner other g owner hg (hdd.symm.trans (hcc.trans hkind))
      hgowner
    have hnew : ((s.addEnvironmentCell owner (s.current f.chunk)).addClosure
        ⟨false, true, none, some s.next, none, f.chunk⟩).closures owner
          = some { c with environment := none, environmentCell := some s.next } := by
      refine (Function.update_of_ne (Nat.ne_of_lt hlt) _ _).trans ?_
      simp [EnvironmentState.addEnvironmentCell, hc]
    obtain rfl := Option.some.inj (hnew.symm.trans he)
    have hcell := hclosed s.next rfl
    obtain ⟨rfl, -, -⟩ := h.chunkFrame other g hg (hdd.symm.trans (hcc.trans hkind))
    simpa [EnvironmentState.addClosure, EnvironmentState.addEnvironmentCell] using hcell.symm
  | rootExternal | parentLocal | parentUpvalue => trivial

/-- From a coherent state, exactly the clean steps lead to a coherent state. -/
theorem Coherent.step_iff (h : s.Coherent) {action : Action V} (hpossible : s.Possible action)
    (hs : s.step action = some s') : s'.Coherent ↔ s.Clean action := by
  cases action with
  | start environment =>
    cases hs
    exact iff_of_true (h.start environment) trivial
  | chunk nativeDebug environment =>
    cases hs
    exact iff_of_true (h.newChunk nativeDebug environment) trivial
  | makeClosure frame source => exact h.makeClosure_iff hs
  | call closure => exact iff_of_true (h.call hs) trivial
  | leave frame => exact iff_of_true (h.leave hs) trivial
  | assign frame value => exact h.assign_iff hs
  | collect closure =>
    cases hs
    exact iff_of_true (h.collect hpossible) trivial

/-! ### Runs -/

/-- Nothing has happened yet. -/
def initial (nothing : V) : EnvironmentState V :=
  ⟨0, fun _ => none, fun _ => none, fun _ => none, fun _ => nothing, fun _ => none⟩

theorem coherent_initial (nothing : V) : (initial nothing).Coherent := by
  constructor
  all_goals simp [initial]

/-- A clean step. -/
def CleanStep (s s' : EnvironmentState V) : Prop :=
  ∃ action, s.Possible action ∧ s.Clean action ∧ s.step action = some s'

theorem Coherent.cleanStep (h : s.Coherent) (hstep : s.CleanStep s') : s'.Coherent := by
  obtain ⟨action, hpossible, hclean, hs⟩ := hstep
  exact (h.step_iff hpossible hs).mpr hclean

theorem coherent_of_run {nothing : V} (hrun : ReflTransGen CleanStep (initial nothing) s) :
    s.Coherent := by
  induction hrun with
  | refl => exact coherent_initial nothing
  | tail _ hstep ih => exact ih.cleanStep hstep

/-- In every run of clean steps, a global is accessed in the table that the `_ENV` of the chunk
    has at that moment, and so is a field of `_ENV`. -/
theorem agrees_of_run {nothing : V} (hrun : ReflTransGen CleanStep (initial nothing) s) (frame : Nat)
    (f : EnvironmentFrame V) (hf : s.frames frame = some f) :
    s.readEnvironmentRegister frame = some (s.current f.chunk)
      ∧ ∀ table, s.explicitTable frame = some table → table = s.current f.chunk :=
  ⟨(coherent_of_run hrun).readEnvironmentRegister_eq hf, fun _ =>
    (coherent_of_run hrun).explicitTable_eq hf⟩

/-- `local f = function () return _ENV end; _ENV = 2; f()`, in steps. -/
theorem agrees_of_run_captured : ∃ s : EnvironmentState Nat,
    ReflTransGen CleanStep (initial 0) s ∧ s.current 0 = 2
      ∧ s.readEnvironmentRegister 3 = some 2 := by
  let s₁ := (initial 0).start 1
  let s₂ := (s₁.captureRegister 0 ⟨none, true, false, 1, none, 0⟩).2.addClosure
    ⟨false, false, none, some 1, some 1, 0⟩
  let s₃ := { s₂ with
    frames := Function.update s₂.frames 0 (some ⟨none, true, false, 2, some 1, 0⟩)
    current := Function.update s₂.current 0 2 }
  let s₄ := s₃.addFrame ⟨some 2, false, false, 2, none, 0⟩
  have h₁ : CleanStep (initial 0) s₁ := ⟨.start 1, trivial, trivial, rfl⟩
  have h₂ : CleanStep s₁ s₂ := ⟨.makeClosure 0 (.parentLocal 0), trivial, trivial, rfl⟩
  have h₃ : CleanStep s₂ s₃ := by
    refine ⟨.assign 0 2, trivial, ?_, rfl⟩
    rintro f ⟨⟩
    refine .inr ?_
    rintro (⟨n, c, hc, -, -, hcell⟩ | ⟨f, owner, cell, ⟨⟩, -, ⟨⟩, -⟩)
    by_cases hn : n = 2
    · subst hn
      cases hc
      exact hcell 1 rfl rfl
    · rw [show s₂.closures n = none from Function.update_of_ne hn _ _] at hc
      cases hc
  have h₄ : CleanStep s₃ s₄ := ⟨.call 2, trivial, trivial, rfl⟩
  have hrun : ReflTransGen CleanStep (initial 0) s₄ :=
    ((ReflTransGen.single h₁).tail h₂).tail h₃ |>.tail h₄
  exact ⟨s₄, hrun, rfl, (agrees_of_run hrun 3 ⟨some 2, false, false, 2, none, 0⟩ rfl).1⟩

/-- Run actions one after another. -/
def runAll (actions : List (Action V)) (s : EnvironmentState V) : Option (EnvironmentState V) :=
  actions.foldlM (fun s action => s.step action) s

/-- `local f = function () return x end; _ENV = 2; f()`: `f` still reads the first `_ENV`. -/
theorem not_agrees_staleCopy :
    ((runAll [.start 1, .makeClosure 0 (.parentFrame 0 1), .assign 0 2, .call 1]
      (initial 0)).map fun s => (s.readEnvironmentRegister 2, (s.frames 2).map (·.chunk), s.current 0))
      = some (some 1, some 0, 2) := by
  rfl

end EnvironmentState

end RivetLua.Runtime
