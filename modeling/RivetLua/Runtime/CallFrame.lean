import RivetLua.Runtime.CellAllocation

namespace RivetLua.Runtime

open RivetLua.Core RivetLua.Gc StateProg

/-!
# Runtime — the registers and open upvalues of a call frame

A frame holds its registers beside the roots that keep their objects alive, and the list of the
upvalues that are still open, each on one register.

* `UpvalueState`, `OpenUpvalue`, `CallFrame`, `Execution` — the state; a register is at the slot
  `stackBase` plus its index;
* `write`, `growForOpenResults` — registers;
* `RootField`, `clearRoots`, `parkRoots`, `restoreRoots` — the roots, field by field in the order
  of the source;
* `findOpen`, `addOpen`, `rollbackOpenPrefix`, `closeOpen`, `closeSlot` — the list;
* `captureUpvalues`, `newClosure` — a closure instruction, with what it undoes when it fails.

Frame fields that none of these reads are left out.  While an instruction runs no finalizer does, so
that an allocation runs units of the collector only.
-/

/-- Where the value of an upvalue is: in a slot, or in the upvalue itself. -/
inductive UpvalueState where
  | opened (thread : VmId) (coroutine : Option ObjectRef) (slot : Nat)
  | closed (value : Value)
  deriving DecidableEq

/-- An entry of the list of open upvalues. -/
structure OpenUpvalue where
  slot : Nat
  object : ObjectRef
  root : Option RootId

/-- A value that is to be closed when its scope ends. -/
structure CloseEntry where
  value : Value
  root : Option RootId

/-- A call frame. -/
structure CallFrame where
  module : Option ObjectRef
  closure : Option ObjectRef
  closureRoot : Option RootId
  stackBase : Nat
  registers : List Value
  roots : List (Option RootId)
  varargs : List Value
  varargRoots : List (Option RootId)
  debugVarargTable : Value
  debugVarargTableRoot : Option RootId
  registerLimit : Nat
  maxRegisterLimit : Nat
  openUpvalues : List OpenUpvalue
  /-- Bytes charged for the list. -/
  openCharge : Nat
  closeEntries : List CloseEntry

/-- A frame in the VM it runs in.  `upvalues` is the state of the upvalue in each heap slot. -/
structure Execution where
  vm : Vm
  coroutine : Option ObjectRef
  frame : CallFrame
  upvalues : Nat → UpvalueState

/-- Errors of the frame operations. -/
inductive FrameError where
  | registerOutOfBounds
  | missingEntryPoint
  | heap (e : VmError)
  deriving DecidableEq, Repr

/-- Operations of a frame. -/
abbrev FrameM := Prog Execution FrameError

/-- Run an operation of the heap. -/
def onHeap {α : Type} (m : VmM α) : FrameM α := fun s =>
  match m s.vm with
  | (.ok a, vm) => (.ok a, { s with vm := vm })
  | (.error e, vm) => (.error (.heap e), { s with vm := vm })

/-- Change the frame. -/
def modifyFrame (f : CallFrame → CallFrame) : FrameM Unit :=
  Prog.modify fun s => { s with frame := f s.frame }

/-- Bytes of a `Value`, of an `Option<RootId>` and of an `OpenUpvalue`. -/
def valueSize : Nat := 40

def optionalRootSize : Nat := 24

def openUpvalueSize : Nat := 8 + objectRefSize + optionalRootSize

/-! ### Registers -/

/-- `index`: the position of a register below the limit. -/
def CallFrame.index (f : CallFrame) (register : Nat) : Except FrameError Nat :=
  if f.registerLimit ≤ register then .error .registerOutOfBounds else .ok register

/-- A stack root for an object value. -/
def stackRoot (value : Value) : FrameM (Option RootId) :=
  match value.objectRef? with
  | none => pure none
  | some object => do
    let id ← onHeap (addRoot .stack object)
    pure (some id)

/-- Remove the root of a slot. -/
def releaseRoot : Option RootId → FrameM Unit
  | none => pure ()
  | some id => do let _ ← onHeap (removeRoot id)

/-- Remove a root, whatever comes of it. -/
def dropRoot (root : Option RootId) : FrameM Unit := fun s =>
  match root with
  | none => (.ok (), s)
  | some id => (.ok (), { s with vm := (removeRoot id s.vm).2 })

/-- `write`: the root of the new value is added before that of the old one is removed. -/
def write (register : Nat) (value : Value) : FrameM Unit := do
  let s ← Prog.get
  let index ← Prog.ofExcept (s.frame.index register)
  let root ← stackRoot value
  Prog.onError (releaseRoot (s.frame.roots[index]?).join) (dropRoot root)
  modifyFrame fun f =>
    { f with registers := f.registers.set index value, roots := f.roots.set index root }

/-- `Vec::resize` of a copy. -/
def resized {α : Type} (l : List α) (n : Nat) (x : α) : List α :=
  l.take n ++ List.replicate (n - l.length) x

/-- `grow_for_open_results`: both new arrays are reserved before the old ones are replaced. -/
def growForOpenResults (required : Nat) : FrameM Unit := do
  let s ← Prog.get
  if required ≤ s.frame.registerLimit then pure ()
  else if s.frame.maxRegisterLimit < required then Prog.fail .registerOutOfBounds
  else do
    let registerBytes ← onHeap (liftLedger (checkedBytes required valueSize))
    let rootBytes ← onHeap (liftLedger (checkedBytes required optionalRootSize))
    if usizeMax < registerBytes + rootBytes then Prog.fail (.heap .arithmeticOverflow)
    else do
      onHeap (liftLedger (reserveVec required valueSize .frameRegistersReserve))
      onHeap (liftLedger (reserveVec required optionalRootSize .frameRootsReserve))
      modifyFrame fun f =>
        { f with
          registers := resized f.registers required .nil
          roots := resized f.roots required none
          registerLimit := required }

/-! ### Roots -/

/-- The fields of a frame with roots. -/
inductive RootField where
  | closure | registers | varargs | debugVarargTable | openUpvalues | closeEntries
  deriving DecidableEq, Repr

/-- The root slots of a field. -/
def CallFrame.rootsOf (f : CallFrame) : RootField → List (Option RootId)
  | .closure => [f.closureRoot]
  | .registers => f.roots
  | .varargs => f.varargRoots
  | .debugVarargTable => [f.debugVarargTableRoot]
  | .openUpvalues => f.openUpvalues.map OpenUpvalue.root
  | .closeEntries => f.closeEntries.map CloseEntry.root

/-- Replace the root slots of a field. -/
def CallFrame.setRoots (f : CallFrame) (field : RootField) (roots : List (Option RootId)) :
    CallFrame :=
  match field with
  | .closure => { f with closureRoot := roots.head?.join }
  | .registers => { f with roots := roots }
  | .varargs => { f with varargRoots := roots }
  | .debugVarargTable => { f with debugVarargTableRoot := roots.head?.join }
  | .openUpvalues =>
    { f with openUpvalues := f.openUpvalues.zipWith (fun e root => { e with root := root }) roots }
  | .closeEntries =>
    { f with closeEntries := f.closeEntries.zipWith (fun e root => { e with root := root }) roots }

/-- The objects a field holds, beside its root slots. -/
def CallFrame.objectsOf (f : CallFrame) : RootField → List (Option ObjectRef)
  | .closure => [f.closure]
  | .registers => f.registers.map Value.objectRef?
  | .varargs => f.varargs.map Value.objectRef?
  | .debugVarargTable => [f.debugVarargTable.objectRef?]
  | .openUpvalues => f.openUpvalues.map fun e => some e.object
  | .closeEntries => f.closeEntries.map fun e => e.value.objectRef?

/-- The kind of the roots of a field. -/
def RootField.kind : RootField → RootKind
  | .openUpvalues => .temporary
  | _ => .stack

/-- Does the loop take the root out of its slot before it removes it? -/
def RootField.takes : RootField → Bool
  | .closure | .registers | .varargs => false
  | .debugVarargTable | .openUpvalues | .closeEntries => true

/-- Remove the root of every slot, from the first to the last, until one fails. -/
def clearSlots (takes : Bool) :
    List (Option RootId) → Vm → Except VmError Unit × List (Option RootId) × Vm
  | [], vm => (.ok (), [], vm)
  | none :: rest, vm =>
    match clearSlots takes rest vm with
    | (r, rest, vm) => (r, none :: rest, vm)
  | some id :: rest, vm =>
    match removeRoot id vm with
    | (.error e, vm) => (.error e, (if takes then none else some id) :: rest, vm)
    | (.ok _, vm) =>
      match clearSlots takes rest vm with
      | (r, rest, vm) => (r, none :: rest, vm)

/-- Add a root for every object, in the slot beside it. -/
def fillSlots (kind : RootKind) :
    List (Option ObjectRef) → List (Option RootId) → Vm →
      Except VmError Unit × List (Option RootId) × Vm
  | none :: objects, root :: roots, vm =>
    match fillSlots kind objects roots vm with
    | (r, roots, vm) => (r, root :: roots, vm)
  | some object :: objects, root :: roots, vm =>
    match addRoot kind object vm with
    | (.error e, vm) => (.error e, root :: roots, vm)
    | (.ok id, vm) =>
      match fillSlots kind objects roots vm with
      | (r, roots, vm) => (r, some id :: roots, vm)
  | _, roots, vm => (.ok (), roots, vm)

/-- Clear the roots of a field. -/
def clearField (field : RootField) : FrameM Unit := fun s =>
  match clearSlots field.takes (s.frame.rootsOf field) s.vm with
  | (r, roots, vm) =>
    (r.mapError .heap, { s with vm := vm, frame := s.frame.setRoots field roots })

/-- Fill the roots of a field. -/
def fillField (field : RootField) : FrameM Unit := fun s =>
  match fillSlots field.kind (s.frame.objectsOf field) (s.frame.rootsOf field) s.vm with
  | (r, roots, vm) =>
    (r.mapError .heap, { s with vm := vm, frame := s.frame.setRoots field roots })

/-- `clear_roots`. -/
def clearRoots : FrameM Unit :=
  [RootField.registers, .varargs, .debugVarargTable, .closure, .closeEntries].forM clearField

/-- `park_roots`: the suspended coroutine traces the values instead. -/
def parkRoots : FrameM Unit := do
  clearRoots
  clearField .openUpvalues

/-- `restore_roots`. -/
def restoreRoots : FrameM Unit :=
  Prog.onError
    ([RootField.closure, .registers, .varargs, .debugVarargTable, .openUpvalues, .closeEntries].forM
      fillField)
    parkRoots

/-- `trace_children`: what a suspended coroutine keeps alive of the frame. -/
def CallFrame.traceChildren (f : CallFrame) : List ObjectRef :=
  f.module.toList ++ f.closure.toList ++ valueRefs (f.registers ++ f.varargs)
    ++ valueRefs [f.debugVarargTable] ++ f.openUpvalues.map OpenUpvalue.object
    ++ valueRefs (f.closeEntries.map CloseEntry.value)

/-! ### Upvalues -/

/-- `close_upvalue`: the barrier runs first, then the upvalue gets its own value. -/
def closeUpvalue (owner : ObjectRef) (value : Value) : FrameM Unit := do
  onHeap (writeRef? owner .upvalue value.objectRef?)
  let s ← Prog.get
  let id ← onHeap (Prog.ofOption .staleObject owner.identity)
  let o ← onHeap (Prog.ofExcept (s.vm.checkedSlot owner))
  match o.object.payload with
  | .node .upvalue _ =>
    Prog.modify fun s =>
      { s with
        vm := s.vm.setPayload id.slot (.node .upvalue value.objectRef?.toList)
        upvalues := Function.update s.upvalues id.slot (.closed value) }
  | _ => Prog.fail (.heap .wrongObjectType)

/-- `upvalue_state`. -/
def Execution.upvalueState (s : Execution) (object : ObjectRef) : Except VmError UpvalueState :=
  match s.vm.checkedSlot object, object.identity with
  | .ok o, some id =>
    match o.object.payload with
    | .node .upvalue _ => .ok (s.upvalues id.slot)
    | _ => .error .wrongObjectType
  | .ok _, none => .error .staleObject
  | .error e, _ => .error e

/-- `find_open`. -/
def CallFrame.findOpen (f : CallFrame) (slot : Nat) : Option ObjectRef :=
  f.openUpvalues.findSome? fun e => if e.slot = slot then some e.object else none

/-- `add_open`. -/
def addOpen (slot : Nat) (object : ObjectRef) : FrameM Unit := do
  let root ← onHeap (addRoot .temporary object)
  let s ← Prog.get
  let needed := s.frame.openUpvalues.length + 1
  if usizeMax < needed then Prog.fail (.heap .arithmeticOverflow)
  else do
    Prog.onError
      (onHeap (liftLedger (do
        Ledger.request
        reserveVec needed openUpvalueSize .openUpvaluesReserve)))
      (do let _ ← onHeap (removeRoot root))
    modifyFrame fun f =>
      { f with
        openUpvalues := f.openUpvalues ++ [⟨slot, object, some root⟩]
        openCharge := needed * openUpvalueSize }

/-- `active_object`. -/
def RootSet.activeObject (r : RootSet) (id : RootId) : Option ObjectRef :=
  (r.entries.find? fun e => decide (e.id = id) && e.isActive).map RootEntry.object

/-- A new entry is checked before anything is removed. -/
def checkEntry (e : OpenUpvalue) : FrameM Unit := do
  let s ← Prog.get
  match e.root with
  | some root =>
    if s.vm.roots.activeObject root ≠ some e.object then Prog.fail (.heap .staleRoot)
  | none => pure ()
  let kind ← onHeap (Prog.ofExcept (s.vm.objectKind e.object))
  if kind ≠ .upvalue then Prog.fail (.heap .wrongObjectType)

/-- A new entry is taken back. -/
def dropEntry (e : OpenUpvalue) : FrameM Unit := do
  releaseRoot e.root
  onHeap (reclaimUnpublishedObject e.object)

/-- `prepare_normalize` for the charges of the list. -/
def prepareNormalize (bytes : Nat) : FrameM Unit := do
  let s ← Prog.get
  if s.frame.openCharge < bytes then Prog.fail (.heap .arithmeticOverflow)
  else if bytes = s.frame.openCharge ∨ bytes = 0 then pure ()
  else onHeap (liftLedger Ledger.request)

/-- `rollback_open_prefix`: all allocation comes first, then the new entries go, the last one
    first. -/
def rollbackOpenPrefix (original : Nat) : FrameM Unit := do
  let s ← Prog.get
  if s.frame.openUpvalues.length < original then Prog.fail (.heap .ledgerInvariant)
  else do
    let bytes ← onHeap (liftLedger (checkedBytes original openUpvalueSize))
    Prog.when (original ≠ 0) (onHeap (liftLedger (do
      checkpoint .openUpvaluesReserve
      Ledger.request)))
    prepareNormalize bytes
    (s.frame.openUpvalues.drop original).forM checkEntry
    (s.frame.openUpvalues.drop original).reverse.forM dropEntry
    modifyFrame fun f =>
      { f with openUpvalues := f.openUpvalues.take original, openCharge := bytes }

/-- The register at a slot. -/
def CallFrame.slotIndex (f : CallFrame) (slot : Nat) : Except FrameError Nat :=
  if f.stackBase ≤ slot ∧ slot - f.stackBase < f.registerLimit then .ok (slot - f.stackBase)
  else .error .registerOutOfBounds

/-- Close the upvalue of an entry and remove its root. -/
def closeEntry (e : OpenUpvalue) (value : Value) : FrameM Unit := do
  closeUpvalue e.object value
  releaseRoot e.root

/-- The loop of `close_open`, which ends after as many rounds as there are entries. -/
def closeLast : Nat → FrameM Unit
  | 0 => pure ()
  | n + 1 => do
    let s ← Prog.get
    match s.frame.openUpvalues.getLast? with
    | none => pure ()
    | some e => do
      let index ← Prog.ofExcept (s.frame.slotIndex e.slot)
      closeEntry e (s.frame.registers.getD index .nil)
      modifyFrame fun f => { f with openUpvalues := f.openUpvalues.dropLast }
      closeLast n

/-- `close_open`. -/
def closeOpen : FrameM Unit := do
  let s ← Prog.get
  closeLast s.frame.openUpvalues.length

/-- `close_slot`. -/
def closeSlot (register : Nat) : FrameM Unit := do
  let s ← Prog.get
  let index ← Prog.ofExcept (s.frame.index register)
  if usizeMax < s.frame.stackBase + index then Prog.fail .registerOutOfBounds
  else
    match s.frame.openUpvalues.findIdx? fun e => decide (e.slot = s.frame.stackBase + index) with
    | none => pure ()
    | some position =>
      match s.frame.openUpvalues[position]? with
      | none => pure ()
      | some e => do
        closeEntry e (s.frame.registers.getD index .nil)
        modifyFrame fun f => { f with openUpvalues := f.openUpvalues.eraseIdx position }

/-! ### Closures -/

/-- What an allocation finds: whether the table of slot charges is full, and the collector work
    that is due. -/
structure AllocationSite where
  chargesFull : Bool
  collects : Bool
  collection : CollectorProgram

/-- Allocate an object. -/
def AllocationSite.allocate (site : AllocationSite) (payload : HeapPayload) : FrameM ObjectRef :=
  onHeap (allocatePayloadWithCharge payload site.chargesFull site.collects site.collection.run)

/-- `allocate_upvalue` of an open upvalue. -/
def allocateUpvalue (site : AllocationSite) (slot : Nat) : FrameM ObjectRef := do
  let s ← Prog.get
  let object ← site.allocate (.node .upvalue s.coroutine.toList)
  let id ← onHeap (Prog.ofOption .staleObject object.identity)
  Prog.modify fun t =>
    { t with upvalues := Function.update t.upvalues id.slot (.opened s.vm.id s.coroutine slot) }
  pure object

/-- The source of a captured variable: a register of this frame, `none` when the binding has none,
    or what was found in the running closure. -/
inductive CaptureSource where
  | parentLocal (register : Option Nat)
  | parentUpvalue (found : Except FrameError ObjectRef)

/-- One captured variable: an open upvalue of the slot is shared. -/
def capture (site : AllocationSite) : CaptureSource → FrameM ObjectRef
  | .parentUpvalue found => Prog.ofExcept found
  | .parentLocal none => Prog.fail .registerOutOfBounds
  | .parentLocal (some register) => do
    let s ← Prog.get
    let index ← Prog.ofExcept (s.frame.index register)
    if usizeMax < s.frame.stackBase + index then Prog.fail .registerOutOfBounds
    else
      match s.frame.findOpen (s.frame.stackBase + index) with
      | some existing => pure existing
      | none => do
        let object ← allocateUpvalue site (s.frame.stackBase + index)
        Prog.onError (addOpen (s.frame.stackBase + index) object)
          (onHeap (reclaimUnpublishedObject object))
        pure object

/-- The captures in order. -/
def captureAll : List (AllocationSite × CaptureSource) → FrameM (List ObjectRef)
  | [] => pure []
  | (site, source) :: rest => do
    let object ← capture site source
    let objects ← captureAll rest
    pure (object :: objects)

/-- `capture_upvalues`: the captures, and how long the list was before. -/
def captureUpvalues (sources : List (AllocationSite × CaptureSource)) :
    FrameM (List ObjectRef × Nat) := do
  Prog.when (sources.length ≠ 0)
    (onHeap (liftLedger (reserveVec sources.length objectRefSize .closureCapturesReserve)))
  let s ← Prog.get
  let captures ← Prog.onError (captureAll sources)
    (rollbackOpenPrefix s.frame.openUpvalues.length)
  pure (captures, s.frame.openUpvalues.length)

/-- The closure of a closure instruction: its module, its captures and its environment, which may be
    one of the captures. -/
def storeClosure (site : AllocationSite) (dest : Nat) (captures : List ObjectRef)
    (environment : List ObjectRef → Except FrameError (Option ObjectRef)) : FrameM Unit := do
  let cell ← Prog.ofExcept (environment captures)
  let s ← Prog.get
  let module ← Prog.ofOption .missingEntryPoint s.frame.module
  Prog.when (captures.length ≠ 0)
    (onHeap (liftLedger (reserveVec captures.length objectRefSize .closureCapturesReserve)))
  let object ← site.allocate (.node .closure (module :: captures ++ cell.toList))
  Prog.onError (write dest (.object object)) (onHeap (reclaimUnpublishedObject object))

/-- A closure instruction. -/
def newClosure (site : AllocationSite) (dest : Nat)
    (sources : List (AllocationSite × CaptureSource))
    (environment : List ObjectRef → Except FrameError (Option ObjectRef)) : FrameM Unit := do
  let (captures, original) ← captureUpvalues sources
  Prog.onError (storeClosure site dest captures environment) (rollbackOpenPrefix original)

end RivetLua.Runtime
