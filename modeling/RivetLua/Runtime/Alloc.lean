import RivetLua.Lib.Prog

namespace RivetLua.Runtime

open StateProg

/-!
# Runtime — errors, failure points and the allocation ledger

Every operation that needs memory first asks the ledger.  Whether a request is granted
depends on the byte limit, on injected failures and on the host's admission callback; none
of these is known to the code that asks.  `Ledger` therefore carries the answer to each
request in order, and a statement about an operation quantifies over all ledgers.

* `VmError`, `FailPoint` — the source's error and failure-point enumerations, as far as
  the modelled functions produce them;
* `LedgerM` — programs that ask the ledger;
* `reserveVec`, `checkpoint` — the two entry points the runtime uses.
-/

/-- Controlled failure points of allocation and initialisation. -/
inductive FailPoint where
  | slotReserve | objectReserve | objectInitialize
  | stringBytesReserve
  | tableArrayReserve | tableHashReserve | tableKeyReserve | tableInsert
  | tableArrayGrow | tableHashGrow | tableRehash
  | rootReserve | hostLease | childReserve | markReserve | workReserve | rememberedReserve
  | frameRegistersReserve | frameRootsReserve | openUpvaluesReserve | closureCapturesReserve
  deriving DecidableEq, Repr

/-- Errors of the VM. -/
inductive VmError where
  | allocationFailed
  | identityExhausted
  | rootIdExhausted
  | wrongVm
  | staleObject
  | staleRoot
  | wrongObjectType
  | nilTableKey
  | nanTableKey
  | arithmeticOverflow
  | ledgerInvariant
  | invalidGcStepBudget
  | wrongGcPhase
  | finalizerGcReentry
  | injectedFailure (point : FailPoint)
  | injectedAllocation (ordinal : Nat)
  deriving DecidableEq, Repr

/-- The ways a request for memory is refused. -/
inductive AllocationFailure where
  | budget
  | injection (ordinal : Nat)
  | point (point : FailPoint)
  deriving DecidableEq, Repr

/-- The error a refusal surfaces as. -/
def AllocationFailure.toVmError : AllocationFailure → VmError
  | .budget => .allocationFailed
  | .injection n => .injectedAllocation n
  | .point p => .injectedFailure p

/-- A refusal is never reported as one of the errors of an inconsistent heap. -/
theorem AllocationFailure.toVmError_ne (f : AllocationFailure) :
    f.toVmError ≠ .ledgerInvariant ∧ f.toVmError ≠ .staleObject := by
  cases f <;> simp [toVmError]

/-- The ledger as seen by its clients: the answer to the `n`-th request, and how many
    requests were made. -/
structure Ledger where
  answer : Nat → Option AllocationFailure
  requests : Nat

/-- A ledger that grants every request. -/
def Ledger.granting : Ledger := ⟨fun _ => none, 0⟩

/-- Programs that ask the ledger. -/
abbrev LedgerM := Prog Ledger VmError

/-- One request. -/
def Ledger.request : LedgerM Unit := fun l =>
  match l.answer l.requests with
  | none => (.ok (), { l with requests := l.requests + 1 })
  | some f => (.error f.toVmError, { l with requests := l.requests + 1 })

/-- The largest `usize`. -/
def usizeMax : Nat := 18446744073709551615

/-- `count.checked_mul(size)`. -/
def checkedBytes (count size : Nat) : LedgerM Nat :=
  if count * size ≤ usizeMax then pure (count * size) else Prog.fail .arithmeticOverflow

/-- Reserve room for `additional` elements of `size` bytes each. -/
def reserveVec (additional size : Nat) (_point : FailPoint) : LedgerM Unit := do
  let _ ← checkedBytes additional size
  Ledger.request

/-- A failure point without bytes attached. -/
def checkpoint (_point : FailPoint) : LedgerM Unit := Ledger.request

/-! ### No request reports an inconsistent ledger -/

theorem Ledger.request_spec :
    Triple (fun _ => True) Ledger.request (fun _ _ => True) (fun e _ => e ≠ .ledgerInvariant) := by
  intro l _
  unfold Ledger.request
  cases h : l.answer l.requests with
  | none => trivial
  | some f => exact f.toVmError_ne.1

theorem checkpoint_spec (point : FailPoint) :
    Triple (fun _ => True) (checkpoint point) (fun _ _ => True)
      (fun e _ => e ≠ .ledgerInvariant) :=
  Ledger.request_spec

theorem checkedBytes_spec (count size : Nat) :
    Triple (fun _ => True) (checkedBytes count size) (fun _ _ => True)
      (fun e _ => e ≠ .ledgerInvariant) :=
  Triple.ite (fun _ _ _ => trivial) (fun _ _ _ => by simp [Prog.fail])

theorem checkedBytes_le (count size : Nat) :
    Triple (fun _ => True) (checkedBytes count size) (fun _ _ => count * size ≤ usizeMax)
      (fun _ _ => True) :=
  Triple.ite (fun h _ _ => h) (fun _ _ _ => trivial)

theorem reserveVec_spec (additional size : Nat) (point : FailPoint) :
    Triple (fun _ => True) (reserveVec additional size point) (fun _ _ => True)
      (fun e _ => e ≠ .ledgerInvariant) :=
  Triple.bind (checkedBytes_spec _ _) fun _ => Ledger.request_spec

end RivetLua.Runtime
