import RivetLua.Core.Profile
import RivetLua.Gc.State
import RivetLua.Runtime.Table

namespace RivetLua.Runtime

open RivetLua.Core RivetLua.Gc StateProg

/-!
# Runtime — heap objects, slots, roots and the VM

* `HeapObject` — a payload and the extra `children` edges; `childRefs` lists every object it
  refers to, in the order the tracer visits them;
* `Slot` — an object, a free slot with its next generation, or a retired slot;
* `RootSet` — the registered roots, host roots with their lease;
* `Vm` — the state every operation of the runtime works on, and `VmM`, the programs over it;
* `Vm.checkedSlot` — the only way from a reference to an object: VM, slot, generation and
  the whole reference (token included) have to agree.

Payloads other than tables, strings and the two kinds with a metatable differ for the
collector only in the references they hold, so they share the constructor `node`.
-/

/-! ### Objects -/

/-- Classification of heap objects. -/
inductive ObjectKind where
  | value | byteString | table | userdata | closure | cClosure | builtin | coroutine
  | upvalue | module | file
  deriving DecidableEq, Repr

/-- Kinds whose payload is, to the collector, a list of references. -/
inductive NodeKind where
  | closure | cClosure | builtin | coroutine | upvalue | module
  deriving DecidableEq, Repr

/-- The object kind of a node. -/
def NodeKind.objectKind : NodeKind → ObjectKind
  | .closure => .closure
  | .cClosure => .cClosure
  | .builtin => .builtin
  | .coroutine => .coroutine
  | .upvalue => .upvalue
  | .module => .module

/-- What a heap object stores. -/
inductive HeapPayload where
  | value (v : Value)
  | byteString (bytes : List UInt8) (external : Bool)
  | table (t : Table)
  | userdata (metatable : Option ObjectRef) (uservalues : List Value)
  | file (metatable : Option ObjectRef)
  | node (kind : NodeKind) (edges : List ObjectRef)

/-- A heap object. -/
structure HeapObject where
  payload : HeapPayload
  children : List ObjectRef

/-- References held by a list of values. -/
def valueRefs (vs : List Value) : List ObjectRef := vs.filterMap Value.objectRef?

/-- References of one live bucket: key source, then value. -/
def Bucket.refs : Bucket → List ObjectRef
  | some (key, value) =>
    if value = .nil then [] else key.sourceObject.toList ++ value.objectRef?.toList
  | none => []

/-- Every reference of a table: metatable, array values, live keys and values. -/
def Table.childRefs (t : Table) : List ObjectRef :=
  t.metatable.toList ++ valueRefs (t.array.filterMap id) ++ t.hash.flatMap Bucket.refs

/-- Every reference of a payload. -/
def HeapPayload.childRefs : HeapPayload → List ObjectRef
  | .value v => v.objectRef?.toList
  | .byteString _ _ => []
  | .table t => t.childRefs
  | .userdata metatable uservalues => metatable.toList ++ valueRefs uservalues
  | .file metatable => metatable.toList
  | .node _ edges => edges

/-- Every reference of an object, in visiting order. -/
def HeapObject.childRefs (o : HeapObject) : List ObjectRef := o.payload.childRefs ++ o.children

/-- Is the payload a byte string? -/
def HeapPayload.isByteString : HeapPayload → Bool
  | .byteString _ _ => true
  | _ => false

/-- The kind of a payload. -/
def HeapPayload.objectKind : HeapPayload → ObjectKind
  | .value _ => .value
  | .byteString _ _ => .byteString
  | .table _ => .table
  | .userdata _ _ => .userdata
  | .file _ => .file
  | .node kind _ => kind.objectKind

/-! ### Slots -/

/-- An occupied slot. -/
structure OccupiedSlot where
  generation : Generation
  reference : ObjectRef
  age : GcAge
  survivals : Nat
  finalizer : FinalizerState
  finalizerOrder : Nat
  finalizerRemarked : Bool
  object : HeapObject

/-- A slot of the heap. -/
inductive Slot where
  | occupied (o : OccupiedSlot)
  | free (generation : Generation)
  | retired

/-- The object in a slot. -/
def Slot.occupied? : Slot → Option OccupiedSlot
  | .occupied o => some o
  | _ => none

/-! ### Roots -/

/-- Kinds of roots. -/
inductive RootKind where
  | stack | registry | global | temporary | coroutine | host
  deriving DecidableEq, Repr

/-- Identity of a root registration. -/
structure RootId where
  vm : VmId
  sequence : Nat
  deriving DecidableEq, Repr

/-- A registered root; a host root carries the state of its lease. -/
structure RootEntry where
  id : RootId
  kind : RootKind
  object : ObjectRef
  lease : Option Bool
  deriving DecidableEq, Repr

/-- A root without lease, or with an active one. -/
def RootEntry.isActive (e : RootEntry) : Bool := e.lease.getD true

/-- The root table. -/
structure RootSet where
  vm : VmId
  entries : List RootEntry
  nextSequence : Nat

/-- `Vec::swap_remove`: the last element takes the place of the removed one. -/
def swapRemove {α : Type} (l : List α) (index : Nat) : List α :=
  match l.getLast? with
  | some last => (l.set index last).dropLast
  | none => l

/-- The objects of the active roots. -/
def RootSet.objects (r : RootSet) : List ObjectRef :=
  (r.entries.filter RootEntry.isActive).map RootEntry.object

/-- Drop the entries whose lease ended. -/
def RootSet.compact (r : RootSet) : RootSet :=
  { r with entries := r.entries.filter RootEntry.isActive }

/-! ### The VM -/

/-- A queued finalizer. -/
structure FinalizerEntry where
  object : ObjectRef
  order : Nat
  deriving DecidableEq, Repr

/-- The VM, as far as heap, roots, collector and finalizers are concerned.
    `finalizerQueue` is ordered as in the source: the last entry runs next. -/
structure Vm where
  id : VmId
  profile : LuaProfile
  hashSeed : Nat
  slots : List Slot
  gcScanEnd : Nat
  roots : RootSet
  ledger : Ledger
  gc : GcState
  finalizerQueue : List FinalizerEntry
  finalizerNextOrder : Nat
  shutdownClosing : Bool
  finalizerRunning : Bool
  executionRunning : Bool
  debugHookRunning : Bool
  /-- The process-wide token counter. -/
  nextToken : Nat

/-- Programs over the VM. -/
abbrev VmM := Prog Vm VmError

/-- Run a ledger program inside the VM. -/
def liftLedger {α : Type} (m : LedgerM α) : VmM α := fun vm =>
  match m vm.ledger with
  | (r, ledger) => (r, { vm with ledger := ledger })

namespace Vm

/-- A VM without objects. -/
def new (id : VmId) (profile : LuaProfile) (hashSeed : Nat) (ledger : Ledger)
    (majorDue : Nat → Bool) (nextToken : Nat) : Vm where
  id := id
  profile := profile
  hashSeed := hashSeed
  slots := []
  gcScanEnd := 0
  roots := ⟨id, [], 1⟩
  ledger := ledger
  gc := GcState.new majorDue
  finalizerQueue := []
  finalizerNextOrder := 0
  shutdownClosing := false
  finalizerRunning := false
  executionRunning := false
  debugHookRunning := false
  nextToken := nextToken

/-- The object in a slot. -/
def occupied? (vm : Vm) (index : Nat) : Option OccupiedSlot :=
  vm.slots[index]?.bind Slot.occupied?

/-- Resolve a reference. -/
def checkedSlot (vm : Vm) (object : ObjectRef) : Except VmError OccupiedSlot :=
  match object.identity with
  | none => .error .staleObject
  | some id =>
    if id.vm ≠ vm.id then .error .wrongVm
    else
      match vm.occupied? id.slot with
      | some o =>
        if o.generation = id.generation ∧ o.reference = object then .ok o
        else .error .staleObject
      | none => .error .staleObject

/-- What it takes to resolve. -/
theorem checkedSlot_eq_ok {vm : Vm} {object : ObjectRef} {o : OccupiedSlot} :
    vm.checkedSlot object = .ok o ↔
      ∃ id, object.identity = some id ∧ id.vm = vm.id ∧ vm.occupied? id.slot = some o ∧
        o.generation = id.generation ∧ o.reference = object := by
  unfold checkedSlot
  cases hid : object.identity with
  | none => simp
  | some id =>
    by_cases hvm : id.vm = vm.id
    · cases hocc : vm.occupied? id.slot with
      | none => simp [hvm, hocc]
      | some o' =>
        by_cases hc : o'.generation = id.generation ∧ o'.reference = object
        · simp only [ne_eq, hvm, not_true_eq_false, if_false, hocc, if_pos hc]
          constructor
          · intro h
            obtain rfl : o' = o := by simpa using h
            exact ⟨id, rfl, hvm, hocc, hc⟩
          · rintro ⟨id', hid', -, hocc', -⟩
            obtain rfl : id = id' := by simpa using hid'
            rw [hocc] at hocc'
            simpa using hocc'
        · simp only [ne_eq, hvm, not_true_eq_false, if_false, hocc, if_neg hc]
          constructor
          · intro h
            exact absurd h (by simp)
          · rintro ⟨id', hid', -, hocc', hc'⟩
            obtain rfl : id = id' := by simpa using hid'
            obtain rfl : o' = o := by simpa [hocc] using hocc'
            exact absurd hc' hc
    · simp only [ne_eq, hvm, not_false_eq_true, if_true]
      constructor
      · intro h
        exact absurd h (by simp)
      · rintro ⟨id', hid', hvm', -⟩
        obtain rfl : id = id' := by simpa using hid'
        exact absurd hvm' hvm

/-- The two ways of not resolving. -/
theorem checkedSlot_eq_error {vm : Vm} {object : ObjectRef} {e : VmError}
    (h : vm.checkedSlot object = .error e) : e = .staleObject ∨ e = .wrongVm := by
  unfold checkedSlot at h
  split at h
  · exact .inl (by simpa using h.symm)
  · split at h
    · exact .inr (by simpa using h.symm)
    · split at h
      · split at h
        · exact absurd h (by simp)
        · exact .inl (by simpa using h.symm)
      · exact .inl (by simpa using h.symm)

/-- A slot resolves one reference only. -/
theorem checkedSlot_inj {vm : Vm} {a b : ObjectRef} {x y : OccupiedSlot}
    (ha : vm.checkedSlot a = .ok x) (hb : vm.checkedSlot b = .ok y)
    (h : a.identity = b.identity) : a = b := by
  obtain ⟨id, hid, -, hocc, -, hxa⟩ := checkedSlot_eq_ok.mp ha
  obtain ⟨id', hid', -, hocc', -, hyb⟩ := checkedSlot_eq_ok.mp hb
  obtain rfl : id = id' := by simpa [hid, hid'] using h
  rw [hocc, Option.some.injEq] at hocc'
  rw [← hxa, ← hyb, hocc']

/-- The kind of an object. -/
def objectKind (vm : Vm) (object : ObjectRef) : Except VmError ObjectKind :=
  (vm.checkedSlot object).map fun o => o.object.payload.objectKind

/-- The table behind a reference. -/
def table (vm : Vm) (object : ObjectRef) : Except VmError Table :=
  match vm.checkedSlot object with
  | .error e => .error e
  | .ok o =>
    match o.object.payload with
    | .table t => .ok t
    | _ => .error .wrongObjectType

/-- The bytes behind a reference, and whether a host owns them. -/
def byteString (vm : Vm) (object : ObjectRef) : Except VmError (List UInt8 × Bool) :=
  match vm.checkedSlot object with
  | .error e => .error e
  | .ok o =>
    match o.object.payload with
    | .byteString bytes external => .ok (bytes, external)
    | _ => .error .wrongObjectType

/-- Replace the content of an occupied slot. -/
def setOccupied (vm : Vm) (index : Nat) (o : OccupiedSlot) : Vm :=
  { vm with slots := vm.slots.set index (.occupied o) }

/-- Replace the payload of an occupied slot. -/
def setPayload (vm : Vm) (index : Nat) (payload : HeapPayload) : Vm :=
  match vm.occupied? index with
  | some o => vm.setOccupied index { o with object := { o.object with payload := payload } }
  | none => vm

end Vm

/-! ### Marking -/

/-- Mark one object: a white object of an active cycle becomes gray. -/
def gcMarkSlot (object : ObjectRef) : VmM Unit := fun vm =>
  match object.identity, vm.checkedSlot object with
  | none, _ => (.error .staleObject, vm)
  | some _, .error e => (.error e, vm)
  | some id, .ok _ =>
    if vm.gc.phase = .pause then (.ok (), vm)
    else
      match vm.gc.color id.slot with
      | none => (.error .ledgerInvariant, vm)
      | some .white =>
        if vm.gc.work.length = vm.gc.workCapacity then (.error .allocationFailed, vm)
        else (.ok (), { vm with gc := vm.gc.pushGray id.slot object })
      | some _ => (.ok (), vm)

/-- The ways a mark can end: with an error, with nothing to do, or with a new gray object. -/
theorem gcMarkSlot_cases (object : ObjectRef) (vm : Vm) :
    (∃ e, gcMarkSlot object vm = (.error e, vm) ∧
      (vm.checkedSlot object = .error e ∨
        ∃ id o, object.identity = some id ∧ vm.checkedSlot object = .ok o ∧
          vm.gc.phase ≠ .pause ∧
          ((vm.gc.color id.slot = none ∧ e = .ledgerInvariant) ∨
            (vm.gc.color id.slot = some .white ∧ vm.gc.work.length = vm.gc.workCapacity ∧
              e = .allocationFailed)))) ∨
    (∃ id o, object.identity = some id ∧ vm.checkedSlot object = .ok o ∧
      ((gcMarkSlot object vm = (.ok (), vm) ∧
          (vm.gc.phase = .pause ∨ vm.gc.color id.slot = some .gray ∨
            vm.gc.color id.slot = some .black)) ∨
        (gcMarkSlot object vm = (.ok (), { vm with gc := vm.gc.pushGray id.slot object }) ∧
          vm.gc.phase ≠ .pause ∧ vm.gc.color id.slot = some .white ∧
          vm.gc.work.length ≠ vm.gc.workCapacity))) := by
  unfold gcMarkSlot
  cases hid : object.identity with
  | none => exact .inl ⟨_, rfl, .inl (by simp [Vm.checkedSlot, hid])⟩
  | some id =>
    cases hc : vm.checkedSlot object with
    | error e => exact .inl ⟨e, rfl, .inl rfl⟩
    | ok o =>
      by_cases hp : vm.gc.phase = .pause
      · exact .inr ⟨id, o, rfl, rfl, .inl ⟨by simp [hp], .inl hp⟩⟩
      · simp only [if_neg hp]
        cases hcol : vm.gc.color id.slot with
        | none => exact .inl ⟨_, rfl, .inr ⟨id, o, rfl, rfl, hp, .inl ⟨hcol, rfl⟩⟩⟩
        | some c =>
          cases c with
          | white =>
            by_cases hw : vm.gc.work.length = vm.gc.workCapacity
            · simp only [if_pos hw]
              exact .inl ⟨_, rfl, .inr ⟨id, o, rfl, rfl, hp, .inr ⟨hcol, hw, rfl⟩⟩⟩
            · simp only [if_neg hw]
              exact .inr ⟨id, o, rfl, rfl, .inr ⟨rfl, hp, hcol, hw⟩⟩
          | gray => exact .inr ⟨id, o, rfl, rfl, .inl ⟨rfl, .inr (.inl hcol)⟩⟩
          | black => exact .inr ⟨id, o, rfl, rfl, .inl ⟨rfl, .inr (.inr hcol)⟩⟩

/-- Is an object a byte string? -/
def gcIsString (vm : Vm) (object : ObjectRef) : Except VmError Bool :=
  (vm.checkedSlot object).map fun o => o.object.payload.isByteString

/-! ### Root operations -/

/-- Register a root. -/
def RootSet.add (r : RootSet) (kind : RootKind) (object : ObjectRef) (lease : Option Bool) :
    LedgerM (RootId × RootSet) := do
  let r := r.compact
  if r.nextSequence + 1 < 2 ^ 64 then
    checkpoint .rootReserve
    let id : RootId := ⟨r.vm, r.nextSequence⟩
    pure (id, { r with
      entries := r.entries ++ [⟨id, kind, object, lease⟩]
      nextSequence := r.nextSequence + 1 })
  else Prog.fail .rootIdExhausted

/-- Remove a root; a root whose lease already ended is dropped but reported stale. -/
def removeRoot (id : RootId) : VmM ObjectRef := fun vm =>
  if id.vm ≠ vm.roots.vm then (.error .wrongVm, vm)
  else
    match vm.roots.entries.findIdx? fun e => decide (e.id = id) with
    | none => (.error .staleRoot, vm)
    | some index =>
      match vm.roots.entries[index]? with
      | none => (.error .staleRoot, vm)
      | some entry =>
        let roots := { vm.roots with entries := swapRemove vm.roots.entries index }
        if entry.isActive then (.ok entry.object, { vm with roots := roots })
        else (.error .staleRoot, { vm with roots := roots })

/-- Register a root and mark its object.  The registration comes first and is undone when
    the object cannot be marked. -/
def addRootEntry (kind : RootKind) (object : ObjectRef) (lease : Option Bool) : VmM RootId := do
  let vm ← Prog.get
  let _ ← Prog.ofExcept (vm.checkedSlot object)
  -- entries are compacted even when the reservation fails
  Prog.modify fun vm => { vm with roots := vm.roots.compact }
  let vm ← Prog.get
  let (id, roots) ← liftLedger (vm.roots.add kind object lease)
  Prog.modify fun vm => { vm with roots := roots }
  Prog.onError (gcMarkSlot object) (do let _ ← removeRoot id; pure ())
  pure id

/-- A plain root. -/
def addRoot (kind : RootKind) (object : ObjectRef) : VmM RootId := addRootEntry kind object none

/-- A host root with a lease. -/
def addHostRoot (object : ObjectRef) : VmM RootId := addRootEntry .host object (some true)

/-- The host drops its handle: the lease ends, the entry stays until the next compaction. -/
def deactivateLease (id : RootId) : VmM Unit :=
  Prog.modify fun vm =>
    { vm with
      roots := { vm.roots with
        entries := vm.roots.entries.map fun e =>
          if e.id = id ∧ e.lease.isSome then { e with lease := some false } else e } }

end RivetLua.Runtime
