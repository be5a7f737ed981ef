import RivetLua.Runtime.AllocationLedger
import RivetLua.Runtime.Heap

namespace RivetLua.Runtime.RootLeases

open RivetLua.Core StateProg Allocation

/-!
# Runtime — roots, their leases and what they cost

An entry of the root table is paid for by a charge of the ledger.  The entry of a host root shares
its lease with the handle of the host, and the charge is in the lease: the handle may end the lease
at any time, and may outlive the entry.

* `RootEntry`, `RootSet`, `RootLeaseState` — the table and the leases that were ever given out;
* `add`, `addHost`, `remove`, `deactivate`, `compact`, `releaseAllOnVmDrop` — what changes them;
* `count`, `totalCount`, `visit`, `tryVisitAll` — what reads them;
* `World.step`, `Run` — the operations in any order.
-/

/-- The sizes of the types that the ledger is asked for. -/
structure Layout where
  word : Nat
  rootEntry : Nat
  rootLeaseState : Nat
  deriving DecidableEq, Repr

/-- `RootLeaseState`. -/
structure RootLeaseState where
  active : Bool
  charge : Option Charge
  deriving DecidableEq, Repr

/-- `RootEntry`; the lease is the place of its state among all leases. -/
structure RootEntry where
  id : RootId
  kind : RootKind
  object : ObjectRef
  lease : Option Nat
  charge : Option Charge
  deriving DecidableEq, Repr

/-- `RootSet`. -/
structure RootSet where
  vm : VmId
  entries : List RootEntry
  nextSequence : Nat
  deriving DecidableEq, Repr

/-- The table, all leases, and the ledger. -/
structure World where
  roots : RootSet
  leases : List RootLeaseState
  books : Books
  deriving DecidableEq, Repr

/-- `RootSet::new`. -/
def World.new (vm : VmId) (books : Books) : World := ⟨⟨vm, [], 1⟩, [], books⟩

/-- A program on the table and its leases. -/
abbrev RootM := Prog World VmError

/-- A program of the ledger. -/
def ledger {α : Type} (m : BooksM α) : RootM α :=
  Prog.focus World.books (fun w books => { w with books := books }) m

/-! ### Leases -/

/-- `RootLease::is_active`. -/
def leaseActive (leases : List RootLeaseState) (lease : Nat) : Bool :=
  leases[lease]?.any RootLeaseState.active

/-- `RootEntry::is_active`. -/
def RootEntry.isActive (leases : List RootLeaseState) (entry : RootEntry) : Bool :=
  entry.lease.all (leaseActive leases)

/-- The `Drop` of a charge that may be there. -/
def World.dropCharge (w : World) : Option Charge → World
  | none => w
  | some charge => { w with books := w.books.dropCharge charge }

/-- `RootLease::deactivate`; the charge is taken out of the lease once. -/
def World.deactivate (w : World) (lease : Nat) : World :=
  match w.leases[lease]? with
  | none => w
  | some state =>
    if state.active then
      { w with leases := w.leases.set lease ⟨false, none⟩ }.dropCharge state.charge
    else w

/-! ### Entries -/

/-- `compact`. -/
def World.compact (w : World) : World :=
  { w with roots.entries := w.roots.entries.filter (RootEntry.isActive w.leases) }

/-- `next_id`. -/
def RootSet.nextId (roots : RootSet) : Except VmError RootId :=
  if roots.nextSequence + 1 < 2 ^ 64 then .ok ⟨roots.vm, roots.nextSequence⟩
  else .error .rootIdExhausted

/-- What `add` and `add_host` ask of the ledger.  A failure behind the reservation drops it; `room`
    is the answer of `try_reserve_exact`, and `behind` the failure points that follow it. -/
def chargeEntry (bytes : Nat) (answer : Option Nat) (room : Bool) (behind : List FailPoint) :
    BooksM Charge := do
  let ticket ← reserveAt bytes .host none answer
  Prog.onError (do
      checkpointAt .rootReserve
      if room then List.forM behind checkpointAt
      else do
        recordFailure ticket.attempt .rustReserve
        Prog.fail .allocationFailed)
    (Prog.modify fun books => books.dropReservation ticket)
  commitCharge ticket

/-- The new entry at the end of the table. -/
def World.push (w : World) (entry : RootEntry) : World :=
  { w with roots := { w.roots with
    entries := w.roots.entries ++ [entry]
    nextSequence := w.roots.nextSequence + 1 } }

/-- `add`. -/
def add (layout : Layout) (kind : RootKind) (object : ObjectRef) (answer : Option Nat)
    (room : Bool) : RootM RootId := do
  Prog.modify World.compact
  let w ← Prog.get
  let id ← Prog.ofExcept w.roots.nextId
  let charge ← ledger (chargeEntry layout.rootEntry answer room [])
  Prog.modify fun w => w.push ⟨id, kind, object, none, some charge⟩
  pure id

/-- What a host root costs: the entry, and the lease with the two counters of its `Rc`. -/
def Layout.hostRoot (layout : Layout) : Except VmError Nat :=
  if layout.word * 2 > usizeMax then .error .arithmeticOverflow
  else if layout.word * 2 + layout.rootLeaseState > usizeMax then .error .arithmeticOverflow
  else if layout.rootEntry + (layout.word * 2 + layout.rootLeaseState) > usizeMax then
    .error .arithmeticOverflow
  else .ok (layout.rootEntry + (layout.word * 2 + layout.rootLeaseState))

/-- `add_host`. -/
def addHost (layout : Layout) (object : ObjectRef) (answer : Option Nat) (room : Bool) :
    RootM (RootId × Nat) := do
  Prog.modify World.compact
  let w ← Prog.get
  let id ← Prog.ofExcept w.roots.nextId
  let bytes ← Prog.ofExcept layout.hostRoot
  let charge ← ledger (chargeEntry bytes answer room [.hostLease])
  let lease := w.leases.length
  Prog.modify fun w => { w with leases := w.leases ++ [⟨true, some charge⟩] }
  Prog.modify fun w => w.push ⟨id, .host, object, some lease, none⟩
  pure (id, lease)

/-- The lease of an entry that is taken out ends, and its charge is dropped. -/
def World.releaseEntry (w : World) (entry : RootEntry) : World :=
  (entry.lease.elim w w.deactivate).dropCharge entry.charge

/-- `remove`. -/
def remove (id : RootId) : RootM ObjectRef := fun w =>
  if id.vm ≠ w.roots.vm then (.error .wrongVm, w)
  else
    match w.roots.entries.findIdx? fun entry => decide (entry.id = id) with
    | none => (.error .staleRoot, w)
    | some index =>
      match w.roots.entries[index]? with
      | none => (.error .staleRoot, w)
      | some entry =>
        let wasActive := entry.isActive w.leases
        let w := { w with roots.entries := swapRemove w.roots.entries index }.releaseEntry entry
        if wasActive then (.ok entry.object, w) else (.error .staleRoot, w)

/-- `release_all_on_vm_drop`. -/
def World.releaseAllOnVmDrop (w : World) : World :=
  w.roots.entries.foldl World.releaseEntry { w with roots.entries := [] }

/-! ### Reading the table -/

/-- `count`. -/
def World.count (w : World) (kind : RootKind) : Nat :=
  w.roots.entries.countP fun entry => decide (entry.kind = kind) && entry.isActive w.leases

/-- `total_count`. -/
def World.totalCount (w : World) : Nat := w.roots.entries.countP (RootEntry.isActive w.leases)

/-- `visit`, with a callback that changes `σ`. -/
def World.visit {σ : Type} (w : World) (kind : RootKind) (f : σ → ObjectRef → σ) (s : σ) : σ :=
  w.roots.entries.foldl (fun s entry =>
    if entry.kind = kind ∧ entry.isActive w.leases then f s entry.object else s) s

/-- `try_visit_labeled`, with a callback that may stop. -/
def World.tryVisitLabeled {σ : Type} (w : World)
    (f : RootKind → RootId → ObjectRef → Prog σ VmError Unit) : Prog σ VmError Unit :=
  w.roots.entries.forM fun entry =>
    if entry.isActive w.leases then f entry.kind entry.id entry.object else pure ()

/-- `try_visit_all`. -/
def World.tryVisitAll {σ : Type} (w : World) (f : ObjectRef → Prog σ VmError Unit) :
    Prog σ VmError Unit :=
  w.tryVisitLabeled fun _ _ object => f object

/-! ### Any order -/

/-- The operations; `answer` and `room` are what the admission of the ledger and the Rust
    allocator say, and a lease may be ended whether its entry is in the table or not. -/
inductive Op where
  | add (kind : RootKind) (object : ObjectRef) (answer : Option Nat) (room : Bool)
  | addHost (object : ObjectRef) (answer : Option Nat) (room : Bool)
  | remove (id : RootId)
  | deactivate (lease : Nat)
  | compact
  | releaseAllOnVmDrop
  deriving DecidableEq, Repr

/-- What an operation answers. -/
inductive Reply where
  | added (id : RootId)
  | leased (id : RootId) (lease : Nat)
  | removed (object : ObjectRef)
  | done
  deriving DecidableEq, Repr

/-- The reply to an operation, and what follows. -/
abbrev Outcome := Except VmError Reply × World

/-- One operation. -/
def World.step (layout : Layout) (w : World) : Op → Outcome
  | .add kind object answer room =>
    (do return .added (← RootLeases.add layout kind object answer room) : RootM Reply) w
  | .addHost object answer room =>
    (do
      let (id, lease) ← RootLeases.addHost layout object answer room
      return .leased id lease : RootM Reply) w
  | .remove id => (do return .removed (← RootLeases.remove id) : RootM Reply) w
  | .deactivate lease => (.ok .done, w.deactivate lease)
  | .compact => (.ok .done, w.compact)
  | .releaseAllOnVmDrop => (.ok .done, w.releaseAllOnVmDrop)

/-- An operation and its reply. -/
abbrev Event := Op × Except VmError Reply

end RivetLua.Runtime.RootLeases
