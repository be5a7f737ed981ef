import RivetLua.Runtime.Heap

namespace RivetLua.Runtime

open RivetLua.Core RivetLua.Gc StateProg

/-!
# Runtime — publishing, rolling back and reclaiming objects

* `publishObject` — the part of an allocation up to the moment the slot is occupied.  All
  reservations come first: a refused one leaves the heap as it was;
* `rollbackNewObject` — undo a publication whose allocation failed afterwards;
* `reclaim` — free the slot of an object, with the next generation;
* `rollbackUnpublishedCreatedObject` — reclaim an object that was created inside a
  transaction, and drop its slot when it is still the last one.

The ledger's charges are values that are dropped with what they pay for, so releasing them
never fails; what remains of them here is the byte count `gc.charge`.
-/

/-- An allocation between the publication of its object and its end. -/
structure NewObject where
  index : Nat
  /-- The reused slot, `none` when the slot was appended. -/
  free : Option Nat
  generation : Generation
  reference : ObjectRef

/-- The slot the next object goes to: a free one, or one behind the last. -/
def Vm.freeSlot (vm : Vm) : Option Nat :=
  match vm.gc.nextReusableFree 0 vm.gcScanEnd with
  | some index => some index
  | none => if vm.gcScanEnd < vm.slots.length then some vm.gcScanEnd else none

/-- Does an active cycle need room for one more gray object? -/
def Vm.needsWorkGrowth (vm : Vm) : Bool :=
  decide (vm.gc.phase ≠ .pause) && decide (vm.gc.workCapacity ≤ vm.gc.occupiedCount)

/-- The reservations of an allocation. -/
def reserveObject (vm : Vm) (newPage : Bool) : LedgerM Unit := do
  if vm.freeSlot.isNone then reserveVec 1 96 .slotReserve
  reserveVec 1 96 .objectReserve
  checkpoint .objectInitialize
  if newPage then reserveVec 1 32 .markReserve
  if vm.needsWorkGrowth then
    if vm.gc.charge + objectRefSize ≤ usizeMax then do
      Ledger.request
      checkpoint .workReserve
      if vm.gc.workCapacity + 1 ≤ usizeMax then
        if vm.gc.work.length ≤ vm.gc.workCapacity + 1 then Ledger.request
        else Prog.fail .ledgerInvariant
      else Prog.fail .arithmeticOverflow
    else Prog.fail .arithmeticOverflow

/-- `ObjectRef::new_runtime`: a token of the process-wide counter, until it is exhausted. -/
def Vm.newToken (vm : Vm) : Option Nat := if vm.nextToken + 1 < 2 ^ 64 then some vm.nextToken else none

/-- What a new object's slot holds. -/
def NewObject.occupied (new : NewObject) (payload : HeapPayload) : OccupiedSlot where
  generation := new.generation
  reference := new.reference
  age := .young
  survivals := 0
  finalizer := .unregistered
  finalizerOrder := 0
  finalizerRemarked := false
  object := ⟨payload, []⟩

/-- The VM after an object was stored in its slot. -/
def Vm.published (vm : Vm) (new : NewObject) (payload : HeapPayload) : Vm :=
  let gc := (vm.gc.withPage new.index).publishOccupied new.index
  let gc := if vm.needsWorkGrowth then gc.grow new.index else gc
  { vm with
    slots := match new.free with
      | some index => vm.slots.set index (.occupied (new.occupied payload))
      | none => vm.slots ++ [.occupied (new.occupied payload)]
    gc := gc
    gcScanEnd := max vm.gcScanEnd (new.index + 1)
    nextToken := vm.nextToken + 1 }

/-- Do all references of a payload resolve? -/
def Vm.checkChildren (vm : Vm) : List ObjectRef → Except VmError Unit
  | [] => .ok ()
  | child :: rest =>
    match vm.checkedSlot child with
    | .ok _ => vm.checkChildren rest
    | .error e => .error e

/-- The allocation of an object up to its publication. -/
def publishObject (payload : HeapPayload) : VmM NewObject := do
  let vm ← Prog.get
  Prog.ofExcept (vm.checkChildren payload.childRefs)
  let index := vm.freeSlot.getD vm.slots.length
  if vm.gc.slotBits.length < index / 64 then Prog.fail .ledgerInvariant
  else do
    liftLedger (reserveObject vm (decide (index / 64 = vm.gc.slotBits.length)))
    let generation : Generation :=
      match vm.slots[index]? with
      | some (.free generation) => generation
      | _ => ⟨0⟩
    match vm.newToken with
    | none => Prog.fail .identityExhausted
    | some token =>
      let new : NewObject :=
        { index := index
          free := vm.freeSlot
          generation := generation
          reference := .heap ⟨vm.id, index, generation⟩ (some token) }
      Prog.modify fun vm => vm.published new payload
      pure new

/-! ### Giving slots back -/

/-- Lower the scan bound below the free slots at its end. -/
def retreatFrom (slots : List Slot) : Nat → Nat
  | 0 => 0
  | n + 1 =>
    match slots[n]? with
    | some (.free _) => retreatFrom slots n
    | _ => n + 1

/-- `retreat_gc_scan_end`. -/
def Vm.retreatGcScanEnd (vm : Vm) : Vm :=
  { vm with gcScanEnd := retreatFrom vm.slots (min vm.gcScanEnd vm.slots.length) }

/-- Take back the work capacity an allocation in this slot added. -/
def releaseGcGrowthForSlot (index : Nat) : VmM Unit := fun vm =>
  match vm.gc.growthCharges.findIdx? fun slot => decide (slot = index) with
  | none => (.ok (), vm)
  | some position =>
    if vm.gc.charge < objectRefSize then (.error .ledgerInvariant, vm)
    else
      let gc := { vm.gc with charge := vm.gc.charge - objectRefSize }
      if gc.workCapacity < 1 then (.error .ledgerInvariant, { vm with gc := gc })
      else
        (.ok (), { vm with
          gc := { gc with
            workCapacity := gc.workCapacity - 1
            growthCharges := swapRemove gc.growthCharges position } })

/-- Is a reference in this slot? -/
def ObjectRef.inSlot (object : ObjectRef) (index : Nat) : Bool :=
  match object.identity with
  | none => false
  | some id => decide (id.slot = index)

/-- Undo a publication.  An appended slot is given back by dropping the last slot. -/
def rollbackNewObject (new : NewObject) : VmM Unit := do
  let vm ← Prog.get
  if vm.gc.phase ≠ .pause then
    Prog.modify fun vm =>
      { vm with
        gc := { vm.gc with work := vm.gc.work.filter fun object => !ObjectRef.inSlot object new.index } }
    releaseGcGrowthForSlot new.index
  Prog.modify fun vm =>
    let vm := { vm with gc := vm.gc.retireOrFree new.index true }
    let vm := match new.free with
      | some _ => { vm with slots := vm.slots.set new.index (.free new.generation) }
      | none =>
        let slots := vm.slots.dropLast
        { vm with slots := slots, gc := vm.gc.truncateSlotPages slots.length }
    vm.retreatGcScanEnd

/-- Remove a reference from the remembered set and from the lists of the running cycle. -/
def removeUnpublishedGcReference (reference : ObjectRef) : VmM Unit := do
  let vm ← Prog.get
  match vm.gc.remembered.findIdx? fun object => decide (object = reference) with
  | none => pure ()
  | some index => do
    liftLedger (do
      let _ ← checkedBytes (vm.gc.remembered.length - 1) objectRefSize
      checkpoint .rememberedReserve)
    Prog.modify fun vm =>
      { vm with
        gc := { vm.gc with
          remembered := vm.gc.remembered.eraseIdx index
          rememberedCursor :=
            if index < vm.gc.rememberedCursor then vm.gc.rememberedCursor - 1
            else vm.gc.rememberedCursor } }
  Prog.modify fun vm =>
    let removed := (vm.gc.roots.take vm.gc.rootCursor).countP fun object => decide (object = reference)
    { vm with
      gc := { vm.gc with
        work := vm.gc.work.filter fun object => decide (object ≠ reference)
        roots := vm.gc.roots.filter fun object => decide (object ≠ reference)
        rootCursor := vm.gc.rootCursor - removed } }

/-- The slot after its object was reclaimed. -/
def reclaimedSlot (id : ObjectId) : Slot :=
  match id.generation.next with
  | some next => .free next
  | none => .retired

/-- Free the slot of an object. -/
def reclaim (object : ObjectRef) : VmM Unit := do
  let id ← Prog.ofOption .staleObject object.identity
  let vm ← Prog.get
  let _ ← Prog.ofExcept (vm.checkedSlot object)
  removeUnpublishedGcReference object
  Prog.modify fun vm =>
    let vm :=
      { vm with
        slots := vm.slots.set id.slot (reclaimedSlot id)
        gc := vm.gc.retireOrFree id.slot id.generation.next.isSome }
    vm.retreatGcScanEnd

/-- Reclaim an object that was not published yet. -/
def reclaimUnpublishedObject (reference : ObjectRef) : VmM Unit := do
  removeUnpublishedGcReference reference
  reclaim reference

/-- Undo the creation of an object inside a transaction that began with `previousSlots`
    slots. -/
def rollbackUnpublishedCreatedObject (object : ObjectRef) (previousSlots : Nat)
    (expectedKind : ObjectKind) : VmM Unit := do
  let vm ← Prog.get
  let kind ← Prog.ofExcept (vm.objectKind object)
  if kind ≠ expectedKind then Prog.fail .wrongObjectType
  else do
    let id ← Prog.ofOption .staleObject object.identity
    let appendedSlot :=
      decide (id.slot = previousSlots) && decide (previousSlots + 1 = vm.slots.length)
    reclaimUnpublishedObject object
    let vm ← Prog.get
    if vm.gc.phase ≠ .pause then releaseGcGrowthForSlot id.slot
    if appendedSlot then
      Prog.modify fun vm =>
        let slots := vm.slots.dropLast
        let gc := vm.gc.truncateSlotPages slots.length
        { vm with
          slots := slots
          gc := { gc with ephemeronCursor := min gc.ephemeronCursor vm.gcScanEnd } }

end RivetLua.Runtime
