import RivetLua.Runtime.Allocate
import RivetLua.Runtime.WeakTable

namespace RivetLua.Runtime

open RivetLua.Core RivetLua.Gc StateProg

/-!
# Runtime — the collector

One cycle goes through the phases *root mark*, *propagate*, *atomic* and *sweep* back to
*pause*.  `gcStep` is one unit of work; `incrementalStep` does as many as its budget says and
may stop anywhere, so that the program runs between any two units.

* `beginGcCycleKind` — snapshot of the roots and of the weak modes, colours reset; a minor
  cycle starts with the old objects black;
* `traceGcObject` — mark what an object refers to;
* `stepGcAtomic` — ephemerons, retrace of old objects, clearing of weak values, string keys,
  separation of dead finalizers, clearing of weak keys, rebuild of the remembered set.  Each
  of them goes back to *propagate* when it marked something;
* `sweepStep` — free one white object, or end the cycle;
* `collect`, `collectMinor`, `collectMajor` — whole cycles.

Finalizers run after `incrementalStep` returns to *pause*; they are operations of their own.
-/

/-! ### Marking passes -/

/-- One visit of the tracer. -/
def gcVisit : GcVisit → VmM Unit
  | .always object => gcMarkSlot object
  | .ifString object => do
    let vm ← Prog.get
    let isString ← Prog.ofExcept (gcIsString vm object)
    if isString then gcMarkSlot object

/-- Mark an object and what it refers to. -/
def traceGcObject (object : ObjectRef) : VmM Unit := do
  gcMarkSlot object
  let vm ← Prog.get
  let id ← Prog.ofOption .staleObject object.identity
  let o ← Prog.ofOption .staleObject (vm.occupied? id.slot)
  o.object.gcVisits.forM gcVisit

/-- One pair of an ephemeron table: the value of a live key is marked. -/
def visitEphemeronPair (pair : Option ObjectRef × ObjectRef) : VmM Unit := do
  let vm ← Prog.get
  let liveKey ←
    match pair.1 with
    | none => pure true
    | some key => do
      let id ← Prog.ofOption .staleObject key.identity
      let _ ← Prog.ofExcept (gcIsString vm key)
      pure (decide (vm.gc.color id.slot ≠ some .white))
  if liveKey then do
    let id ← Prog.ofOption .staleObject pair.2.identity
    if vm.gc.color id.slot = some .white then gcMarkSlot pair.2

/-- The table in a slot. -/
def Vm.tableAt (vm : Vm) (index : Nat) : Option Table :=
  match vm.occupied? index with
  | some o =>
    match o.object.payload with
    | .table t => some t
    | _ => none
  | none => none

/-- The ephemeron pass over one slot. -/
def visitEphemeronSlot (index : Nat) : VmM Unit := do
  let vm ← Prog.get
  if vm.gc.color index ≠ some .white then
    match vm.tableAt index with
    | some t => t.ephemeronPairs.forM visitEphemeronPair
    | none => pure ()

/-- Run a loop body for every occupied slot below the scan bound. -/
def forOccupied (body : Nat → VmM Unit) : VmM Unit := do
  let vm ← Prog.get
  (vm.gc.occupiedSlots vm.gcScanEnd).forM body

/-- Old objects that are not white are traced again. -/
def retraceOld : VmM Unit :=
  forOccupied fun index => do
    let vm ← Prog.get
    match vm.occupied? index with
    | some o =>
      if o.age = .old ∧ vm.gc.color index ≠ some .white then traceGcObject o.reference
    | none => pure ()

/-- String keys of the live entries of `kv` tables are marked. -/
def markLiveWeakStringKeys : VmM Unit :=
  forOccupied fun index => do
    let vm ← Prog.get
    match vm.occupied? index with
    | none => pure ()
    | some _ => do
      let color ← Prog.ofOption .ledgerInvariant (vm.gc.color index)
      if color ≠ .white then
        match vm.tableAt index with
        | some t => t.liveWeakStringKeys.forM gcMarkSlot
        | none => pure ()

/-! ### Clearing weak tables -/

/-- Is a child of the table in slot `index` dead?  Strings never are. -/
def Vm.isDeadChild (vm : Vm) (index : Nat) (owner child : ObjectRef) : Except VmError Bool :=
  match child.identity with
  | none => .error .staleObject
  | some id =>
    if id.vm ≠ vm.id then .error .wrongVm
    else if child = owner then .ok (decide (vm.gc.color index = some .white))
    else
      match vm.checkedSlot child with
      | .error e => .error e
      | .ok o =>
        if o.object.payload.isByteString then .ok false
        else .ok (decide (vm.gc.color id.slot = some .white))

/-- Is a key of the table in slot `index` alive?  Strings are tested like other objects. -/
def Vm.isLiveKeyChild (vm : Vm) (index : Nat) (owner key : ObjectRef) : Except VmError Bool :=
  match key.identity with
  | none => .error .staleObject
  | some id =>
    if id.vm ≠ vm.id then .error .wrongVm
    else
      let color (slot : Nat) : Except VmError Bool :=
        match vm.gc.color slot with
        | none => .error .ledgerInvariant
        | some c => .ok (decide (c ≠ .white))
      if key = owner then color index
      else
        match vm.checkedSlot key with
        | .error e => .error e
        | .ok _ => color id.slot

/-- Clear the dead entries of the table in one slot. -/
def clearDeadWeakSlot (clearValues clearKeys : Bool) (index : Nat) : VmM Unit := fun vm =>
  match vm.occupied? index, vm.tableAt index with
  | some o, some t =>
    match t.clearDeadWeakPairs (vm.isDeadChild index o.reference) (vm.isLiveKeyChild index o.reference)
      clearValues clearKeys vm.ledger with
    | (r, t, ledger) => (r, { vm.setPayload index (.table t) with ledger := ledger })
  | _, _ => (.ok (), vm)

/-- `clear_dead_weak_pairs`. -/
def clearDeadWeakPairs (clearValues clearKeys : Bool) : VmM Unit :=
  forOccupied (clearDeadWeakSlot clearValues clearKeys)

/-! ### Finalizers -/

/-- `size_of::<FinalizerEntry>()`. -/
def finalizerEntrySize : Nat := 40

/-- A registered object that is white. -/
def Vm.isFinalizerCandidate (vm : Vm) (index : Nat) : Bool :=
  match vm.occupied? index with
  | some o => decide (o.finalizer = .registered) && decide (vm.gc.color index = some .white)
  | none => false

/-- Room in the queue for the white registered objects. -/
def reserveFinalizerCandidates : VmM Unit := do
  let vm ← Prog.get
  let candidates := (vm.gc.occupiedSlots vm.gcScanEnd).countP vm.isFinalizerCandidate
  if candidates ≠ 0 then liftLedger (reserveVec candidates finalizerEntrySize .workReserve)

/-- `sort_unstable_by_key(order)`: orders are pairwise different, so the sort is determined. -/
def sortQueue (queue : List FinalizerEntry) : List FinalizerEntry :=
  queue.mergeSort fun a b => decide (a.order ≤ b.order)

/-- A white registered object is marked and moved to the queue. -/
def separateDeadFinalizer (index : Nat) : VmM Unit := do
  let vm ← Prog.get
  match vm.occupied? index with
  | some o =>
    if o.finalizer = .registered ∧ vm.gc.color index = some .white then do
      gcMarkSlot o.reference
      Prog.modify fun vm =>
        { vm.setOccupied index { o with finalizer := .pending } with
          finalizerQueue := vm.finalizerQueue ++ [⟨o.reference, o.finalizerOrder⟩] }
  | none => pure ()

/-- `separate_dead_finalizers`. -/
def separateDeadFinalizers : VmM Unit := do
  forOccupied separateDeadFinalizer
  Prog.modify fun vm => { vm with finalizerQueue := sortQueue vm.finalizerQueue }

/-! ### Generations -/

/-- The age an object will have after this cycle, `none` when it will be gone. -/
def Vm.futureGcAgeAt (vm : Vm) (index : Nat) : Except VmError (Option GcAge) :=
  match vm.occupied? index with
  | none => .ok none
  | some o =>
    if vm.gc.cycle = .minor ∧ o.age = .old then .ok (some .old)
    else
      match vm.gc.color index with
      | none => .error .ledgerInvariant
      | some .white => .ok none
      | some _ =>
        if o.age = .old ∨ vm.gc.mode = .incremental then .ok (some o.age)
        else if vm.gc.promotionSurvivals ≤ min (o.survivals + 1) 255 then .ok (some .old)
        else .ok (some .survivor)

/-- Does an object refer to a young one, and to which white one last? -/
def Vm.oldOwnerHasYoungChild (vm : Vm) :
    List ObjectRef → Except VmError (Bool × Option ObjectRef)
  | [] => .ok (false, none)
  | child :: rest =>
    match vm.checkedSlot child, child.identity with
    | .error e, _ => .error e
    | .ok _, none => .error .staleObject
    | .ok _, some id =>
      match vm.futureGcAgeAt id.slot, vm.oldOwnerHasYoungChild rest with
      | .error e, _ => .error e
      | .ok _, .error e => .error e
      | .ok (some .old), .ok (young, white) => .ok (young, white)
      | .ok (some _), .ok (_, white) => .ok (true, white)
      | .ok none, .ok (young, white) => .ok (young, some (white.getD child))

/-- The references of the object in a slot. -/
def Vm.childRefsAt (vm : Vm) (index : Nat) : List ObjectRef :=
  match vm.occupied? index with
  | some o => o.object.childRefs
  | none => []

/-- The first pass of `rebuild_remembered_set`: the owners to remember, or the first white
    child of an old owner. -/
def Vm.scanOldOwners (vm : Vm) : List Nat → Except VmError (List Nat ⊕ ObjectRef)
  | [] => .ok (.inl [])
  | index :: rest =>
    match vm.futureGcAgeAt index with
    | .error e => .error e
    | .ok (some .old) =>
      match vm.oldOwnerHasYoungChild (vm.childRefsAt index) with
      | .error e => .error e
      | .ok (_, some child) => .ok (.inr child)
      | .ok (young, none) =>
        match vm.scanOldOwners rest with
        | .error e => .error e
        | .ok (.inr child) => .ok (.inr child)
        | .ok (.inl owners) => .ok (.inl (if young then index :: owners else owners))
    | .ok _ => vm.scanOldOwners rest

/-- Rebuild the remembered set; `false` when a white child of an old object had to be marked
    instead. -/
def rebuildRememberedSet : VmM Bool := do
  let vm ← Prog.get
  let scanned ← Prog.ofExcept (vm.scanOldOwners (vm.gc.occupiedSlots vm.gcScanEnd))
  match scanned with
  | .inr child => do
    gcMarkSlot child
    pure false
  | .inl [] => do
    Prog.modify fun vm => { vm with gc := vm.gc.clearRemembered }
    pure true
  | .inl owners => do
    liftLedger (do
      let _ ← checkedBytes owners.length objectRefSize
      checkpoint .rememberedReserve)
    Prog.modify fun vm =>
      { vm with
        gc := { vm.gc with
          remembered := owners.filterMap fun index => (vm.occupied? index).map OccupiedSlot.reference
          rememberedCursor := 0 } }
    pure true

/-- One more survival. -/
def OccupiedSlot.promoted (o : OccupiedSlot) (promotionSurvivals : Nat) : OccupiedSlot :=
  let survivals := min (o.survivals + 1) 255
  { o with
    survivals := survivals
    age := if promotionSurvivals ≤ survivals then .old else .survivor }

/-- The survivors of a generational cycle age. -/
def promoteGcSurvivors : VmM Unit := do
  let vm ← Prog.get
  if vm.gc.mode = .generational then
    forOccupied fun index => do
      let vm ← Prog.get
      match vm.occupied? index with
      | some o =>
        if o.age ≠ .old ∧ vm.gc.color index = some .black then
          Prog.modify fun vm => vm.setOccupied index (o.promoted vm.gc.promotionSurvivals)
      | none => pure ()

/-! ### The steps of a cycle -/

/-- The weak mode a `__mode` value stands for. -/
def Vm.weakModeOf (vm : Vm) (value : Value) : Except VmError WeakMode :=
  match value.objectRef? with
  | none => .ok .strong
  | some object =>
    match vm.objectKind object with
    | .error e => .error e
    | .ok .byteString =>
      match vm.byteString object with
      | .error e => .error e
      | .ok (bytes, _) =>
        if vm.profile = .lua54 ∧ 40 < bytes.length then .ok .strong
        else
          let bytes := bytes.takeWhile (· ≠ 0)
          match bytes.contains 107, bytes.contains 118 with
          | false, false => .ok .strong
          | true, false => .ok .keys
          | false, true => .ok .values
          | true, true => .ok .all
    | .ok _ => .ok .strong

/-- The value of a live string field of the hash part. -/
def Table.stringField (t : Table) (name : List UInt8) : Value :=
  (t.hash.findSome? fun bucket =>
    bucket.bind fun (key, value) =>
      if value ≠ .nil ∧ key.stringBytes = some name then some value else none).getD .nil

/-- The `__mode` field. -/
def Table.modeValue (t : Table) : Value := t.stringField [95, 95, 109, 111, 100, 101]

/-- The `__gc` field. -/
def Table.finalizerValue (t : Table) : Value := t.stringField [95, 95, 103, 99]

/-- The weak mode the metatable of a table gives it now. -/
def Vm.currentWeakMode (vm : Vm) (t : Table) : Except VmError WeakMode :=
  match t.metatable with
  | none => .ok .strong
  | some metatable =>
    match vm.table metatable with
    | .error e => .error e
    | .ok mt => vm.weakModeOf mt.modeValue

/-- The weak mode of the table in a slot is taken from its metatable. -/
def snapshotWeakMode (index : Nat) : VmM Unit := do
  let vm ← Prog.get
  match vm.tableAt index with
  | none => pure ()
  | some t => do
    let mode ← Prog.ofExcept (vm.currentWeakMode t)
    Prog.modify fun vm => vm.setPayload index (.table (t.setWeakMode mode))

/-- `snapshot_weak_modes`. -/
def snapshotWeakModes : VmM Unit := forOccupied snapshotWeakMode

/-- The roots a cycle starts from. -/
def Vm.cycleRoots (vm : Vm) : List ObjectRef :=
  vm.roots.objects ++ vm.finalizerQueue.map FinalizerEntry.object

/-- Is the object in a slot old? -/
def Vm.isOldAt (vm : Vm) (index : Nat) : Bool :=
  match vm.occupied? index with
  | some o => decide (o.age = .old)
  | none => false

/-- Old objects are black from the start of a minor cycle. -/
def Vm.blackenOld (vm : Vm) (gc : GcState) : GcState :=
  (gc.occupiedSlots vm.gcScanEnd).foldl
    (fun gc index => if vm.isOldAt index then gc.setColor index .black else gc) gc

/-- The collector state at the start of a cycle. -/
def Vm.cycleStart (vm : Vm) (kind : GcCycleKind) (live : Nat) (roots : List ObjectRef) : GcState :=
  let gc := vm.gc.clearColors
  let gc := if kind = .minor then vm.blackenOld gc else gc
  { gc with
    work := []
    workCapacity := live
    roots := roots
    rootCursor := 0
    rememberedCursor := 0
    sweepCursor := 0
    ephemeronCursor := 0
    atomicFinalizerStage := .beforeWeakValues
    charge := live * objectRefSize + roots.length * objectRefSize
    cycle := kind
    phase := .rootMark }

/-- Start a cycle. -/
def beginGcCycleKind (kind : GcCycleKind) : VmM Unit := do
  let vm ← Prog.get
  if vm.gc.phase ≠ .pause then Prog.fail .wrongGcPhase
  else do
    let live := vm.gc.occupiedCount
    let roots := vm.cycleRoots
    liftLedger (reserveVec live objectRefSize .workReserve)
    liftLedger (reserveVec roots.length objectRefSize .workReserve)
    Prog.ofExcept (vm.checkChildren roots)
    snapshotWeakModes
    if live * objectRefSize + roots.length * objectRefSize ≤ usizeMax then
      Prog.modify fun vm => { vm with gc := vm.cycleStart kind live roots }
    else Prog.fail .arithmeticOverflow

/-- Start a cycle of the kind the mode asks for. -/
def beginGcCycle : VmM Unit := do
  let vm ← Prog.get
  Prog.modify fun vm => { vm with gc := { vm.gc with cyclesBegun := vm.gc.cyclesBegun + 1 } }
  beginGcCycleKind
    (match vm.gc.mode with
    | .incremental => .full
    | .generational => if vm.gc.majorDue vm.gc.cyclesBegun then .major else .minor)

/-- Change the collector state. -/
def modifyGc (f : GcState → GcState) : VmM Unit := Prog.modify fun vm => { vm with gc := f vm.gc }

/-- Back to propagation, to scan the ephemerons from the start again. -/
def GcState.rescan (gc : GcState) : GcState :=
  { gc with ephemeronCursor := 0 }.transition .propagate

/-- Go on with `next` unless something was marked. -/
def unlessWork (next : VmM Unit) : VmM Unit := do
  let vm ← Prog.get
  if vm.gc.work = [] then next else modifyGc GcState.rescan

/-- The last part of the atomic phase. -/
def atomicFinish : VmM Unit := do
  clearDeadWeakPairs false true
  let vm ← Prog.get
  let rebuilt ← if vm.gc.mode = .generational then rebuildRememberedSet else pure true
  if rebuilt then modifyGc (GcState.transition · .sweep) else modifyGc GcState.rescan

/-- The separation of dead finalizers, once in a cycle. -/
def atomicSeparate : VmM Unit := do
  let vm ← Prog.get
  if vm.gc.atomicFinalizerStage = .beforeSeparation then do
    separateDeadFinalizers
    modifyGc fun gc => { gc with atomicFinalizerStage := .afterSeparation }
    unlessWork atomicFinish
  else atomicFinish

/-- The clearing of weak values, once in a cycle. -/
def atomicClearValues : VmM Unit := do
  let vm ← Prog.get
  if vm.gc.atomicFinalizerStage = .beforeWeakValues then do
    reserveFinalizerCandidates
    clearDeadWeakPairs true false
    markLiveWeakStringKeys
    modifyGc fun gc => { gc with atomicFinalizerStage := .beforeSeparation }
    unlessWork atomicSeparate
  else atomicSeparate

/-- After the last ephemeron: the retrace of old objects in generational mode. -/
def atomicConverged : VmM Unit := do
  let vm ← Prog.get
  modifyGc fun gc => { gc with ephemeronCursor := vm.gcScanEnd }
  if vm.gc.mode = .generational then do
    retraceOld
    unlessWork atomicClearValues
  else atomicClearValues

/-- One unit of the atomic phase. -/
def stepGcAtomic : VmM Unit := do
  let vm ← Prog.get
  if vm.gc.work ≠ [] then modifyGc GcState.rescan
  else
    match vm.gc.nextOccupied vm.gc.ephemeronCursor vm.gcScanEnd with
    | some index => do
      modifyGc fun gc => { gc with ephemeronCursor := index + 1 }
      visitEphemeronSlot index
      unlessWork (pure ())
    | none => atomicConverged

/-- One unit of the root phase. -/
def rootMarkStep : VmM Unit := do
  let vm ← Prog.get
  match vm.gc.roots[vm.gc.rootCursor]? with
  | some root => do
    gcMarkSlot root
    modifyGc fun gc => { gc with rootCursor := gc.rootCursor + 1 }
  | none =>
    match (if vm.gc.cycle = .minor then vm.gc.remembered[vm.gc.rememberedCursor]? else none) with
    | some owner => do
      traceGcObject owner
      modifyGc fun gc => { gc with rememberedCursor := gc.rememberedCursor + 1 }
    | none => modifyGc (GcState.transition · .propagate)

/-- Push an object back on the work stack. -/
def pushWork (object : ObjectRef) : VmM Unit := modifyGc fun gc => { gc with work := object :: gc.work }

/-- One unit of propagation. -/
def propagateStep : VmM Unit := do
  let vm ← Prog.get
  match vm.gc.work with
  | object :: rest => do
    modifyGc fun gc => { gc with work := rest }
    Prog.onError (traceGcObject object) (pushWork object)
    let id ← Prog.ofOption .staleObject object.identity
    modifyGc (GcState.setColor · id.slot .black)
  | [] => modifyGc (GcState.transition · .atomic)

/-- One unit of the sweep. -/
def sweepStep : VmM Unit := do
  let vm ← Prog.get
  if vm.gc.work ≠ [] then modifyGc (GcState.transition · .propagate)
  else
    match vm.gc.nextOccupied vm.gc.sweepCursor vm.gcScanEnd with
    | some index => do
      modifyGc fun gc => { gc with sweepCursor := index + 1 }
      match vm.occupied? index with
      | none => pure ()
      | some o => do
        let color ← Prog.ofOption .ledgerInvariant (vm.gc.color index)
        if color = .white then
          if vm.gc.cycle ≠ .minor ∨ o.age ≠ .old then do
            reclaim o.reference
            modifyGc fun gc => { gc with reclaimedObjects := gc.reclaimedObjects + 1 }
    | none => do
      Prog.modify fun vm => { vm with roots := vm.roots.compact }
      promoteGcSurvivors
      modifyGc GcState.clearCycle

/-- One unit of work in the current phase. -/
def gcStep : VmM Unit := do
  let vm ← Prog.get
  match vm.gc.phase with
  | .pause => beginGcCycle
  | .rootMark => rootMarkStep
  | .propagate => propagateStep
  | .atomic => stepGcAtomic
  | .sweep => sweepStep

/-- The loop of `incremental_step`: it stops when a cycle that was active ends. -/
def incrementalLoop : Nat → Bool → VmM Unit
  | 0, _ => pure ()
  | budget + 1, began => do
    let vm ← Prog.get
    if vm.gc.phase = .pause ∧ began then pure ()
    else do
      gcStep
      incrementalLoop budget true

/-- `incremental_step`, without the finalizers that run at its end. -/
def incrementalStep (budget : Nat) : VmM Unit := do
  let vm ← Prog.get
  if vm.finalizerRunning then Prog.fail .finalizerGcReentry
  else if budget = 0 then Prog.fail .invalidGcStepBudget
  else incrementalLoop budget (decide (vm.gc.phase ≠ .pause))

end RivetLua.Runtime
