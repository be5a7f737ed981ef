import RivetLua.Runtime.Access
import RivetLua.Runtime.Collector

namespace RivetLua.Runtime

open RivetLua.Core RivetLua.Gc StateProg

/-!
# Runtime — what the program does to the heap

* `writeRef` — the barrier before a reference is stored: an old owner of a young child is
  remembered, and in an active cycle a white child of a black owner is marked.  The barrier is
  skipped for edges that count as weak;
* `addChild`, `setUservalue`, `withNodeMut` — barriered field writes;
* `prepareTableWriteBarrier`, `Vm.rawSet` — the raw write of a table field: mutation and
  barrier are prepared first, then both are published;
* `registerFinalizer`, `setMetatable` — metatables, and the finalizers they register;
* `queueShutdownFinalizers`, `startFinalizer`, `pauseFinalizerStart`, `finishFinalizer` — the
  life of a queued finalizer;
* `setGcMode`, `collect`, `collectMinor`, `collectMajor` — collector control.
-/

/-! ### The write barrier -/

/-- Fields that hold references. -/
inductive RefField where
  | child | tableKey | tableValue | metatable | userValue | upvalue | coroutine
  deriving DecidableEq, Repr

/-- Remember an old owner of a young child. -/
def rememberGcOwner (owner : ObjectRef) : VmM Unit := do
  let vm ← Prog.get
  if owner ∈ vm.gc.remembered then pure ()
  else do
    liftLedger (reserveVec 1 objectRefSize .rememberedReserve)
    modifyGc fun gc => { gc with remembered := gc.remembered ++ [owner] }

/-- Does an edge into a table count as weak for the barrier? -/
def weakTableEdge (mode : WeakMode) (field : RefField) (isString : Bool) : Bool :=
  match field with
  | .tableKey => mode.weakKeys && !isString
  | .tableValue => decide (mode ≠ .strong)
  | _ => false

/-- The colour test of the barrier: a black owner and a white child. -/
def Vm.barrierHits (vm : Vm) (owner child : ObjectRef) : Except VmError Bool :=
  match owner.identity, child.identity with
  | some o, some c =>
    match vm.gc.color o.slot, vm.gc.color c.slot with
    | none, _ => .error .ledgerInvariant
    | some .black, none => .error .ledgerInvariant
    | some .black, some color => .ok (decide (color = .white))
    | some _, _ => .ok false
  | _, _ => .error .staleObject

/-- Does the barrier skip a reference to the object `c`? -/
def Vm.skipsBarrier (vm : Vm) (owner : ObjectRef) (field : RefField) (c : OccupiedSlot) :
    Except VmError Bool :=
  if field = .tableKey ∨ field = .tableValue then
    match vm.table owner with
    | .error e => .error e
    | .ok t => .ok (weakTableEdge t.weakMode field c.object.payload.isByteString)
  else .ok false

/-- The barrier before a reference is stored. -/
def writeRef (owner : ObjectRef) (field : RefField) (child : ObjectRef) : VmM Unit := do
  let vm ← Prog.get
  let o ← Prog.ofExcept (vm.checkedSlot owner)
  let c ← Prog.ofExcept (vm.checkedSlot child)
  Prog.when (vm.gc.mode = .generational ∧ o.age = .old ∧ c.age ≠ .old) (rememberGcOwner owner)
  let weak ← Prog.ofExcept (vm.skipsBarrier owner field c)
  Prog.when (weak = false ∧ vm.gc.phase ≠ .pause) do
    let hit ← Prog.ofExcept (vm.barrierHits owner child)
    Prog.when (hit = true) (gcMarkSlot child)

/-- The barrier of a reference that may be absent. -/
def writeRef? (owner : ObjectRef) (field : RefField) : Option ObjectRef → VmM Unit
  | none => pure ()
  | some child => writeRef owner field child

/-- Replace the object of an occupied slot. -/
def Vm.setObject (vm : Vm) (index : Nat) (object : HeapObject) : Vm :=
  match vm.occupied? index with
  | some o => vm.setOccupied index { o with object := object }
  | none => vm

/-- Add an edge to the extra children of an object. -/
def addChild (parent child : ObjectRef) : VmM Unit := do
  writeRef parent .child child
  let vm ← Prog.get
  let id ← Prog.ofOption .staleObject parent.identity
  let o ← Prog.ofOption .staleObject (vm.occupied? id.slot)
  liftLedger (reserveVec (o.object.children.length + 1) objectRefSize .childReserve)
  Prog.modify fun vm =>
    vm.setObject id.slot { o.object with children := o.object.children ++ [child] }

/-- The user values behind a reference. -/
def Vm.userdata (vm : Vm) (object : ObjectRef) : Except VmError (Option ObjectRef × List Value) :=
  match vm.checkedSlot object with
  | .error e => .error e
  | .ok o =>
    match o.object.payload with
    | .userdata metatable uservalues => .ok (metatable, uservalues)
    | _ => .error .wrongObjectType

/-- Set a user value; indices start at one. -/
def setUservalue (object : ObjectRef) (index : Nat) (value : Value) : VmM Bool := do
  let vm ← Prog.get
  let (metatable, uservalues) ← Prog.ofExcept (vm.userdata object)
  if 1 ≤ index ∧ index ≤ uservalues.length then do
    writeRef? object .userValue value.objectRef?
    let id ← Prog.ofOption .staleObject object.identity
    Prog.modify fun vm =>
      vm.setPayload id.slot (.userdata metatable (uservalues.set (index - 1) value))
    pure true
  else pure false

/-- The edges behind a reference to a closure, an upvalue, a coroutine and so on. -/
def Vm.node (vm : Vm) (object : ObjectRef) : Except VmError (NodeKind × List ObjectRef) :=
  match vm.checkedSlot object with
  | .error e => .error e
  | .ok o =>
    match o.object.payload with
    | .node kind edges => .ok (kind, edges)
    | _ => .error .wrongObjectType

/-- A write to a closure, an upvalue, a coroutine and so on: the barrier runs for every new
    reference, then the commit drops some fields and stores the new ones. -/
def withNodeMut (owner : ObjectRef) (newRefs : List ObjectRef) (keep : ObjectRef → Bool) :
    VmM Unit := do
  let vm ← Prog.get
  let (kind, edges) ← Prog.ofExcept (vm.node owner)
  newRefs.forM fun child => writeRef owner .coroutine child
  let id ← Prog.ofOption .staleObject owner.identity
  Prog.modify fun vm => vm.setPayload id.slot (.node kind (edges.filter keep ++ newRefs))

/-! ### The raw write -/

/-- A barrier that was prepared and not published. -/
structure PreparedTableBarrier where
  remember : Bool
  marks : List (ObjectRef × Nat)

/-- One edge of a raw write: whether the owner has to be remembered for it, and the mark it
    needs. -/
def Vm.prepareEdge (vm : Vm) (mode : WeakMode) (ownerOld ownerBlack : Bool) (field : RefField)
    (child : ObjectRef) : Except VmError (Bool × Option (ObjectRef × Nat)) :=
  match vm.checkedSlot child, child.identity with
  | .error e, _ => .error e
  | .ok _, none => .error .staleObject
  | .ok c, some id =>
    let remember := ownerOld && decide (c.age ≠ .old)
    if weakTableEdge mode field c.object.payload.isByteString || !ownerBlack then
      .ok (remember, none)
    else
      match vm.gc.color id.slot with
      | none => .error .ledgerInvariant
      | some .white => .ok (remember, some (child, id.slot))
      | some _ => .ok (remember, none)

/-- An edge that may be absent. -/
def Vm.prepareEdge? (vm : Vm) (mode : WeakMode) (ownerOld ownerBlack : Bool) (field : RefField) :
    Option ObjectRef → Except VmError (Bool × Option (ObjectRef × Nat))
  | none => .ok (false, none)
  | some child => vm.prepareEdge mode ownerOld ownerBlack field child

/-- The marks of two edges, without the repetition. -/
def mergeMarks (first second : Option (ObjectRef × Nat)) : List (ObjectRef × Nat) :=
  match first, second with
  | some a, some b => if a.1 = b.1 then [a] else [a, b]
  | some a, none => [a]
  | none, some b => [b]
  | none, none => []

/-- Is the owner black in an active cycle? -/
def Vm.ownerBlack (vm : Vm) (owner : ObjectRef) : Except VmError Bool :=
  if vm.gc.phase = .pause then .ok false
  else
    match owner.identity with
    | none => .error .staleObject
    | some id =>
      match vm.gc.color id.slot with
      | none => .error .ledgerInvariant
      | some color => .ok (decide (color = .black))

/-- Prepare the barrier of a raw write. -/
def prepareTableWriteBarrier (owner : ObjectRef) (key value : Option ObjectRef) :
    VmM PreparedTableBarrier := do
  let vm ← Prog.get
  let o ← Prog.ofExcept (vm.checkedSlot owner)
  let t ← Prog.ofExcept (vm.table owner)
  let ownerOld := decide (vm.gc.mode = .generational) && decide (o.age = .old)
  let ownerBlack ← Prog.ofExcept (vm.ownerBlack owner)
  let (rememberKey, markKey) ←
    Prog.ofExcept (vm.prepareEdge? t.weakMode ownerOld ownerBlack .tableKey key)
  let (rememberValue, markValue) ←
    Prog.ofExcept (vm.prepareEdge? t.weakMode ownerOld ownerBlack .tableValue value)
  let marks := mergeMarks markKey markValue
  let remember := (rememberKey || rememberValue) && !decide (owner ∈ vm.gc.remembered)
  if vm.gc.workCapacity - vm.gc.work.length < marks.length then Prog.fail .allocationFailed
  else do
    Prog.when (remember = true) (liftLedger (reserveVec 1 objectRefSize .rememberedReserve))
    pure ⟨remember, marks⟩

/-- Publish a barrier. -/
def PreparedTableBarrier.apply (barrier : PreparedTableBarrier) (owner : ObjectRef)
    (gc : GcState) : GcState :=
  let gc := if barrier.remember then { gc with remembered := gc.remembered ++ [owner] } else gc
  barrier.marks.foldl (fun gc mark => gc.pushGray mark.2 mark.1) gc

/-- The raw write of a table field. -/
def Vm.rawSet [DefaultHasher] (table : ObjectRef) (key value : Value) : VmM Unit := do
  let vm ← Prog.get
  let t ← Prog.ofExcept (vm.table table)
  let id ← Prog.ofOption .staleObject table.identity
  let mutation ← liftLedger (t.prepareRawSet vm key value)
  let barrier ← prepareTableWriteBarrier table mutation.newEdges.1 mutation.newEdges.2
  Prog.modify fun vm =>
    { vm with gc := barrier.apply table vm.gc }.setPayload id.slot (.table (mutation.apply t))

/-! ### Metatables and finalizers -/

/-- Would a registration count as a new one? -/
def OccupiedSlot.newRegistration (o : OccupiedSlot) : Bool :=
  match o.finalizer with
  | .registered | .pending => false
  | .running => !o.finalizerRemarked
  | .unregistered | .finalized => true

/-- The slot after a new registration. -/
def OccupiedSlot.registered (o : OccupiedSlot) (order : Nat) : OccupiedSlot :=
  if o.finalizer = .running then { o with finalizerRemarked := true, finalizerOrder := order }
  else { o with finalizer := .registered, finalizerOrder := order }

/-- Register the finalizer of an object. -/
def registerFinalizer (object : ObjectRef) : VmM Unit := do
  let vm ← Prog.get
  let o ← Prog.ofExcept (vm.checkedSlot object)
  if vm.shutdownClosing then pure ()
  else if o.newRegistration then
    if vm.finalizerNextOrder + 1 < 2 ^ 64 then do
      let id ← Prog.ofOption .staleObject object.identity
      Prog.modify fun vm =>
        { vm.setOccupied id.slot (o.registered vm.finalizerNextOrder) with
          finalizerNextOrder := vm.finalizerNextOrder + 1 }
    else Prog.fail .arithmeticOverflow
  else pure ()

/-- Would the registration fail? -/
def preflightFinalizerRegistration (object : ObjectRef) : VmM Unit := do
  let vm ← Prog.get
  let o ← Prog.ofExcept (vm.checkedSlot object)
  if vm.shutdownClosing ∨ o.newRegistration = false then pure ()
  else if vm.finalizerNextOrder + 1 < 2 ^ 64 then pure ()
  else Prog.fail .arithmeticOverflow

/-- `Table::set_metatable`: a change counts as a mutation. -/
def Table.setMetatable (t : Table) (metatable : Option ObjectRef) : Table :=
  { (if t.metatable = metatable then t else t.bumpMutationVersion) with metatable := metatable }

/-- A payload with another metatable; `none` for kinds without one. -/
def HeapPayload.withMetatable (payload : HeapPayload) (metatable : Option ObjectRef) :
    Option HeapPayload :=
  match payload with
  | .table t => some (.table (t.setMetatable metatable))
  | .userdata _ uservalues => some (.userdata metatable uservalues)
  | .file _ => some (.file metatable)
  | _ => none

/-- Has a metatable a `__gc` field now? -/
def Vm.hasFinalizer (vm : Vm) : Option ObjectRef → Except VmError Bool
  | none => .ok false
  | some reference => (vm.table reference).map fun mt => decide (mt.finalizerValue ≠ .nil)

/-- Set the metatable of an object, and register its finalizer when the metatable has a
    `__gc` field now. -/
def setMetatable (object : ObjectRef) (metatable : Option ObjectRef) : VmM Unit := do
  let vm ← Prog.get
  let o ← Prog.ofExcept (vm.checkedSlot object)
  let payload ← Prog.ofOption .wrongObjectType (o.object.payload.withMetatable metatable)
  let register ← Prog.ofExcept (vm.hasFinalizer metatable)
  Prog.when (register = true) (preflightFinalizerRegistration object)
  writeRef? object .metatable metatable
  let id ← Prog.ofOption .staleObject object.identity
  Prog.modify fun vm => vm.setPayload id.slot payload
  Prog.when (register = true) (registerFinalizer object)

/-- The registered objects, in slot order, become pending. -/
def Vm.shutdownSlot (slot : Slot) : Slot :=
  match slot with
  | .occupied o => if o.finalizer = .registered then .occupied { o with finalizer := .pending } else slot
  | _ => slot

/-- The queue entry of a registered object. -/
def Vm.shutdownEntry (slot : Slot) : Option FinalizerEntry :=
  match slot with
  | .occupied o => if o.finalizer = .registered then some ⟨o.reference, o.finalizerOrder⟩ else none
  | _ => none

/-- Queue every registered finalizer before the VM is closed. -/
def queueShutdownFinalizers : VmM Unit := do
  let vm ← Prog.get
  if vm.executionRunning ∨ vm.finalizerRunning then Prog.fail .finalizerGcReentry
  else do
    let entries := vm.slots.filterMap Vm.shutdownEntry
    Prog.when (entries ≠ []) (liftLedger (reserveVec entries.length finalizerEntrySize .workReserve))
    Prog.modify fun vm =>
      { vm with
        shutdownClosing := true
        slots := vm.slots.map Vm.shutdownSlot
        finalizerQueue := sortQueue (vm.finalizerQueue ++ entries) }

/-- The object whose finalizer runs next. -/
def Vm.nextFinalizer (vm : Vm) : Option ObjectRef := vm.finalizerQueue.getLast?.map FinalizerEntry.object

/-- The slot of a reference, whatever its generation. -/
def Vm.finalizerSlot (vm : Vm) (object : ObjectRef) : Except VmError (Nat × OccupiedSlot) :=
  match object.identity with
  | none => .error .staleObject
  | some id =>
    match vm.occupied? id.slot with
    | none => .error .staleObject
    | some o => .ok (id.slot, o)

/-- The finalizer of the last queued object starts. -/
def startFinalizer (object : ObjectRef) : VmM Unit := do
  let vm ← Prog.get
  if vm.finalizerRunning ∨ vm.nextFinalizer ≠ some object then Prog.fail .finalizerGcReentry
  else do
    let (index, o) ← Prog.ofExcept (vm.finalizerSlot object)
    if o.finalizer ≠ .pending then Prog.fail .ledgerInvariant
    else Prog.modify fun vm =>
      { vm.setOccupied index { o with finalizer := .running } with finalizerRunning := true }

/-- The start is taken back. -/
def pauseFinalizerStart (object : ObjectRef) : VmM Unit := do
  let vm ← Prog.get
  let (index, o) ← Prog.ofExcept (vm.finalizerSlot object)
  if o.finalizer ≠ .running then Prog.fail .ledgerInvariant
  else Prog.modify fun vm =>
    { vm.setOccupied index { o with finalizer := .pending } with finalizerRunning := false }

/-- The slot after its finalizer ran. -/
def OccupiedSlot.finished (o : OccupiedSlot) : OccupiedSlot :=
  { o with
    finalizer := if o.finalizerRemarked then .registered else .finalized
    finalizerRemarked := false }

/-- The running finalizer ends. -/
def finishFinalizer (object : ObjectRef) : VmM Unit := do
  let vm ← Prog.get
  if vm.finalizerRunning = false ∨ vm.nextFinalizer ≠ some object then Prog.fail .ledgerInvariant
  else do
    let (index, o) ← Prog.ofExcept (vm.finalizerSlot object)
    if o.finalizer ≠ .running then Prog.fail .ledgerInvariant
    else Prog.modify fun vm =>
      { vm.setOccupied index o.finished with
        finalizerQueue := vm.finalizerQueue.dropLast
        finalizerRunning := false }

/-! ### Collector control -/

/-- Forget ages. -/
def OccupiedSlot.rejuvenated (o : OccupiedSlot) : OccupiedSlot := { o with age := .young, survivals := 0 }

/-- Change the collection mode, between cycles only. -/
def setGcMode (mode : GcMode) : VmM Unit := do
  let vm ← Prog.get
  if vm.gc.phase ≠ .pause then Prog.fail .wrongGcPhase
  else if vm.gc.mode = mode then pure ()
  else Prog.modify fun vm =>
    { vm with
      gc := { vm.gc.clearRemembered with mode := mode, cycle := .full }
      slots := vm.slots.map fun
        | .occupied o => .occupied o.rejuvenated
        | slot => slot }

end RivetLua.Runtime
