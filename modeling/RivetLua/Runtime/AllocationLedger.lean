import RivetLua.Runtime.Alloc

namespace RivetLua.Runtime.Allocation

open StateProg

/-!
# Runtime — the books of the allocation ledger

The ledger counts bytes in two domains, reserved and committed.  A reservation becomes a charge, a
charge moves into a pair or a batch, and whoever holds bytes last gives them back in its `Drop`.
The bytes of an owner other than zero are backed by a token of the host's admission, which is
released together with them.

The callbacks of the admission do not call back into the ledger: an answer is an argument of the
operation that asks for it.  What was admitted and released is written down in `Books`.

* `reserveAt`, `commitCharge`, `dropReservation`, `dropCharge` — the life of some bytes;
* `PairedLuaCharges`, `normalize` — owners of several charges;
* `Op`, `World.step` — the operations in any order, on all owners that are alive.
-/

/-- `AllocationDomain`. -/
inductive Domain where
  | luaHeap | host
  deriving DecidableEq, Repr

/-- `AllocationAttempt`; the source position of the call is not used by the ledger. -/
structure Attempt where
  ordinal : Nat
  domain : Domain
  bytes : Nat
  point : Option FailPoint
  deriving DecidableEq, Repr

/-- `AllocationFailureKind`. -/
inductive FailureKind where
  | arithmetic | budget | injection | admission | rustReserve
  deriving DecidableEq, Repr

/-- `AllocationPeaks`. -/
structure Peaks where
  committed : Nat
  outstanding : Nat
  luaHeapBytes : Nat
  hostAllocationBytes : Nat
  deriving DecidableEq, Repr

/-- `LedgerState` with its snapshot and its trace. -/
structure LedgerState where
  limit : Nat
  committed : Nat
  reserved : Nat
  luaHeapBytes : Nat
  hostAllocationBytes : Nat
  luaReserved : Nat
  hostReserved : Nat
  peaks : Peaks
  failOnce : Option FailPoint
  poisoned : Bool
  nextOrdinal : Nat
  lastAttempt : Option Attempt
  lastFailure : Option (Attempt × FailureKind)
  failAtOrdinal : Option Nat
  deriving DecidableEq, Repr

namespace LedgerState

/-- The state of a new ledger. -/
def new (limit : Nat) : LedgerState where
  limit := limit
  committed := 0
  reserved := 0
  luaHeapBytes := 0
  hostAllocationBytes := 0
  luaReserved := 0
  hostReserved := 0
  peaks := ⟨0, 0, 0, 0⟩
  failOnce := none
  poisoned := false
  nextOrdinal := 1
  lastAttempt := none
  lastFailure := none
  failAtOrdinal := none

/-- The reserved bytes of a domain. -/
def reservedOf (state : LedgerState) : Domain → Nat
  | .luaHeap => state.luaReserved
  | .host => state.hostReserved

/-- The committed bytes of a domain. -/
def committedOf (state : LedgerState) : Domain → Nat
  | .luaHeap => state.luaHeapBytes
  | .host => state.hostAllocationBytes

/-- Write the reserved bytes of a domain. -/
def setReservedOf (state : LedgerState) (domain : Domain) (bytes : Nat) : LedgerState :=
  match domain with
  | .luaHeap => { state with luaReserved := bytes }
  | .host => { state with hostReserved := bytes }

/-- Write the committed bytes of a domain. -/
def setCommittedOf (state : LedgerState) (domain : Domain) (bytes : Nat) : LedgerState :=
  match domain with
  | .luaHeap => { state with luaHeapBytes := bytes }
  | .host => { state with hostAllocationBytes := bytes }

/-- `LedgerState::record_peaks`. -/
def recordPeaks (state : LedgerState) : Except VmError LedgerState :=
  if state.committed + state.reserved > usizeMax then .error .arithmeticOverflow
  else .ok { state with peaks := {
    committed := max state.peaks.committed state.committed
    outstanding := max state.peaks.outstanding (state.committed + state.reserved)
    luaHeapBytes := max state.peaks.luaHeapBytes state.luaHeapBytes
    hostAllocationBytes := max state.peaks.hostAllocationBytes state.hostAllocationBytes } }

/-- The part of `reserve_at` behind the admission. -/
def addReserved (state : LedgerState) (bytes : Nat) (domain : Domain) :
    Except VmError LedgerState :=
  if state.poisoned then .error .ledgerInvariant
  else if state.reserved + bytes > usizeMax then .error .arithmeticOverflow
  else if state.reservedOf domain + bytes > usizeMax then .error .arithmeticOverflow
  else recordPeaks ({ state with reserved := state.reserved + bytes }.setReservedOf domain
    (state.reservedOf domain + bytes))

/-- The part of `commit_charge` that moves the bytes. -/
def commit (state : LedgerState) (bytes : Nat) (domain : Domain) : Except VmError LedgerState :=
  if state.poisoned then .error .ledgerInvariant
  else if state.reserved < bytes then .error .ledgerInvariant
  else if state.committed + bytes > usizeMax then .error .arithmeticOverflow
  else if state.reservedOf domain < bytes then .error .ledgerInvariant
  else if state.committedOf domain + bytes > usizeMax then .error .arithmeticOverflow
  else recordPeaks (({ state with
    reserved := state.reserved - bytes, committed := state.committed + bytes }.setReservedOf
      domain (state.reservedOf domain - bytes)).setCommittedOf
      domain (state.committedOf domain + bytes))

/-- The part of `Reservation::drop` that gives the bytes back. -/
def unreserve (state : LedgerState) (bytes : Nat) (domain : Domain) : LedgerState :=
  if state.reserved < bytes then { state with poisoned := true }
  else if state.reservedOf domain < bytes then
    { state with reserved := state.reserved - bytes, poisoned := true }
  else { state with reserved := state.reserved - bytes }.setReservedOf domain
    (state.reservedOf domain - bytes)

/-- `refund_on_drop_domain`. -/
def refundOnDrop (state : LedgerState) (bytes : Nat) (domain : Domain) : LedgerState :=
  if state.committed < bytes ∨ state.committedOf domain < bytes ∨ state.poisoned then
    { state with poisoned := true }
  else { state with committed := state.committed - bytes }.setCommittedOf domain
    (state.committedOf domain - bytes)

end LedgerState

/-! ### The ledger and its admission -/

/-- The state of the ledger, and every token with its bytes that the admission has given out and
    taken back. -/
structure Books where
  state : LedgerState
  external : Bool
  admitted : List (Nat × Nat)
  released : List (Nat × Nat)
  deriving DecidableEq, Repr

/-- A program of the ledger. -/
abbrev BooksM := Prog Books VmError

/-- `self.inner.set(state)`. -/
def setState (state : LedgerState) : BooksM Unit :=
  Prog.modify fun books => { books with state := state }

/-- `AllocationAdmission::admit`: the host answers with a token or refuses, and the internal
    admission gives out the token 1. -/
def admission (bytes : Nat) (answer : Option Nat) : BooksM (Option Nat) := fun books =>
  match if books.external then answer else some 1 with
  | none => (.ok none, books)
  | some token => (.ok (some token), { books with admitted := books.admitted ++ [(token, bytes)] })

/-- `AllocationAdmission::release` of a token that is there. -/
def Books.release (books : Books) (token : Option Nat) (bytes : Nat) : Books :=
  match token with
  | none => books
  | some token => { books with released := books.released ++ [(token, bytes)] }

/-- `record_failure`. -/
def recordFailure (attempt : Attempt) (kind : FailureKind) : BooksM Unit :=
  Prog.modify fun books =>
    { books with state := { books.state with lastFailure := some (attempt, kind) } }

/-- Stop with a failure that is written down first. -/
def refuse {α : Type} (state : LedgerState) (attempt : Attempt) (kind : FailureKind)
    (error : VmError) : BooksM α := do
  setState { state with lastFailure := some (attempt, kind) }
  Prog.fail error

/-! ### Reservations and charges -/

/-- `Reservation`; one that is committed or dropped is no longer there. -/
structure Reservation where
  bytes : Nat
  domain : Domain
  attempt : Attempt
  token : Option Nat
  deriving DecidableEq, Repr

/-- `AllocationCharge`. -/
structure Charge where
  bytes : Nat
  domain : Domain
  token : Option Nat
  deriving DecidableEq, Repr

/-- `Reservation::drop`. -/
def Books.dropReservation (books : Books) (r : Reservation) : Books :=
  let books := books.release r.token r.bytes
  { books with state := books.state.unreserve r.bytes r.domain }

/-- `AllocationCharge::drop`. -/
def Books.dropCharge (books : Books) (charge : Charge) : Books :=
  let books := books.release charge.token charge.bytes
  { books with state := books.state.refundOnDrop charge.bytes charge.domain }

/-- The token of a reservation; no bytes need none. -/
def takeToken (bytes : Nat) (attempt : Attempt) (answer : Option Nat) : BooksM (Option Nat) :=
  if bytes = 0 then pure none
  else do
    match ← admission bytes answer with
    | some token => pure (some token)
    | none => do
      recordFailure attempt .admission
      Prog.fail .allocationFailed

/-- The end of `reserve_at`; a token that is not handed over is released. -/
def publish (bytes : Nat) (domain : Domain) (attempt : Attempt) (token : Option Nat) :
    BooksM Reservation := do
  let books ← Prog.get
  match books.state.addReserved bytes domain with
  | .error e => do
    Prog.modify fun books => books.release token bytes
    Prog.fail e
  | .ok state => do
    setState state
    pure ⟨bytes, domain, attempt, token⟩

/-- `reserve_at`. -/
def reserveAt (bytes : Nat) (domain : Domain) (point : Option FailPoint) (answer : Option Nat) :
    BooksM Reservation := do
  let books ← Prog.get
  let old := books.state
  if old.poisoned then Prog.fail .ledgerInvariant
  else if old.nextOrdinal + 1 > usizeMax then Prog.fail .arithmeticOverflow
  else
    let attempt : Attempt := ⟨old.nextOrdinal, domain, bytes, point⟩
    let state := { old with nextOrdinal := old.nextOrdinal + 1, lastAttempt := some attempt }
    if state.committed + state.reserved > usizeMax then
      refuse state attempt .arithmetic .arithmeticOverflow
    else if state.committed + state.reserved + bytes > usizeMax then
      refuse state attempt .arithmetic .arithmeticOverflow
    else if state.committed + state.reserved + bytes > state.limit then
      refuse state attempt .budget .allocationFailed
    else if state.failAtOrdinal = some attempt.ordinal then
      refuse { state with failAtOrdinal := none } attempt .injection
        (.injectedAllocation attempt.ordinal)
    else do
      setState state
      let token ← takeToken bytes attempt answer
      publish bytes domain attempt token

/-- `checkpoint`. -/
def checkpointAt (point : FailPoint) : BooksM Unit := do
  let books ← Prog.get
  if books.state.poisoned then Prog.fail .ledgerInvariant
  else if books.state.failOnce = some point then do
    setState { books.state with failOnce := none }
    Prog.fail (.injectedFailure point)
  else pure ()

/-- `reserve_vec` and `reserve_lua_backing_excess` behind the size of the request: the bytes are
    reserved, the failure point is passed, and the container is given room.  `room` says whether
    the Rust allocator has some; a request without container always has. -/
def reserveBacking (bytes : Nat) (domain : Domain) (point : FailPoint) (answer : Option Nat)
    (room : Bool) : BooksM Reservation := do
  let ticket ← reserveAt bytes domain (some point) answer
  Prog.onError (do
      Prog.onError (checkpointAt point) (recordFailure ticket.attempt .injection)
      if room then pure ()
      else do
        recordFailure ticket.attempt .rustReserve
        Prog.fail .allocationFailed)
    (Prog.modify fun books => books.dropReservation ticket)
  pure ticket

/-- `Reservation::commit_charge`; a reservation that cannot be committed is dropped. -/
def commitCharge (r : Reservation) : BooksM Charge := do
  let books ← Prog.get
  match books.state.commit r.bytes r.domain with
  | .error e => do
    Prog.modify fun books => books.dropReservation r
    Prog.fail e
  | .ok state => do
    setState state
    pure ⟨r.bytes, r.domain, r.token⟩

/-- `Reservation::commit`: the charge is emptied, so that its `Drop` gives nothing back.  A ledger
    with an admission of the host refuses, and the reservation is dropped.  The charge that was
    given away is returned. -/
def commit (r : Reservation) : BooksM Charge := do
  let books ← Prog.get
  if books.external then do
    Prog.modify fun books => books.dropReservation r
    Prog.fail .ledgerInvariant
  else do
    let charge ← commitCharge r
    Prog.modify fun books => books.dropCharge { charge with bytes := 0, token := none }
    pure charge

/-! ### Owners of several charges -/

/-- `LuaChargePart`. -/
structure LuaChargePart where
  bytes : Nat
  token : Option Nat
  deriving DecidableEq, Repr

/-- `LuaChargePart::default`. -/
def LuaChargePart.empty : LuaChargePart := ⟨0, none⟩

/-- `PairedLuaCharges`. -/
structure PairedLuaCharges where
  first : LuaChargePart
  second : LuaChargePart
  deriving DecidableEq, Repr

/-- `PairedLuaCharges::new`. -/
def PairedLuaCharges.new : PairedLuaCharges := ⟨.empty, .empty⟩

/-- `take_part`: the charge is left empty, and its `Drop` gives nothing back. -/
def Books.takePart (books : Books) (charge : Charge) : LuaChargePart × Books :=
  (⟨charge.bytes, charge.token⟩, books.dropCharge { charge with bytes := 0, token := none })

/-- `release_part`. -/
def Books.releasePart (books : Books) (part : LuaChargePart) : Books :=
  let books := books.release part.token part.bytes
  { books with state := books.state.refundOnDrop part.bytes .luaHeap }

/-- `replace_first`. -/
def Books.replaceFirst (books : Books) (pair : PairedLuaCharges) (charge : Charge) :
    PairedLuaCharges × Books :=
  let (next, books) := books.takePart charge
  ({ pair with first := next }, books.releasePart pair.first)

/-- `replace_second`. -/
def Books.replaceSecond (books : Books) (pair : PairedLuaCharges) (charge : Charge) :
    PairedLuaCharges × Books :=
  let (next, books) := books.takePart charge
  ({ pair with second := next }, books.releasePart pair.second)

/-- `clear_second`. -/
def Books.clearSecond (books : Books) (pair : PairedLuaCharges) : PairedLuaCharges × Books :=
  ({ pair with second := .empty }, books.releasePart pair.second)

/-- `PairedLuaCharges::drop`. -/
def Books.dropPair (books : Books) (pair : PairedLuaCharges) : Books :=
  (books.releasePart pair.first).releasePart pair.second

/-- The `Drop` of the charges of a batch, in order. -/
def Books.dropCharges (books : Books) (charges : List Charge) : Books :=
  charges.foldl Books.dropCharge books

/-- `AllocationCharges::try_push`; the room for the entry may be missing. -/
def tryPush (batch : List Charge) (charge : Charge) (room : Bool) : Except VmError (List Charge) :=
  if batch.head?.any fun first => first.domain ≠ charge.domain then .error .ledgerInvariant
  else if room then .ok (batch ++ [charge])
  else .error .allocationFailed

/-- `AllocationCharges::try_absorb`. -/
def tryAbsorb (batch other : List Charge) (room : Bool) : Except VmError (List Charge) :=
  if batch.head?.any fun first => other.head?.any fun next => first.domain ≠ next.domain then
    .error .ledgerInvariant
  else if room then .ok (batch ++ other)
  else .error .allocationFailed

/-- `AllocationCharges::total_bytes`. -/
def totalBytes (batch : List Charge) : Except VmError Nat :=
  batch.foldlM (fun total charge =>
    if total + charge.bytes > usizeMax then .error .arithmeticOverflow
    else .ok (total + charge.bytes)) 0

/-- The partial case of `commit_normalize`: every old token is released, the emptied charges are
    dropped, and the state from before is written back without the excess. -/
def Books.commitPartial (books : Books) (before : LedgerState) (batch : List Charge)
    (domain : Domain) (excess : Nat) : Books :=
  let books := batch.foldl (fun books charge => books.release charge.token charge.bytes) books
  let books := books.dropCharges (batch.map fun charge => { charge with bytes := 0, token := none })
  let state := { before with peaks := books.state.peaks, committed := before.committed - excess }
  { books with state := state.setCommittedOf domain (before.committedOf domain - excess) }

/-- The partial case of `prepare_normalize`, followed by its commit.  The callback does not change
    the balances, so they are compared with themselves behind it. -/
def normalizePartial (batch : List Charge) (first : Charge) (total actual : Nat)
    (answer : Option Nat) (room : Bool) : BooksM (List Charge) := do
  let books ← Prog.get
  let before := books.state
  let excess := total - actual
  if before.poisoned ∨ before.committed < excess ∨ before.committedOf first.domain < excess then
    Prog.fail .ledgerInvariant
  else do
    match ← admission actual answer with
    | none => Prog.fail .allocationFailed
    | some token =>
      if room then do
        Prog.modify fun books => books.commitPartial before batch first.domain excess
        pure [⟨actual, first.domain, some token⟩]
      else do
        Prog.modify fun books => books.release (some token) actual
        Prog.fail .allocationFailed

/-- `AllocationCharges::normalize`: the new batch; the old one is left empty. -/
def normalize (batch : List Charge) (actual : Nat) (answer : Option Nat) (room : Bool) :
    BooksM (List Charge) := do
  let total ← Prog.ofExcept (totalBytes batch)
  if actual > total then Prog.fail .arithmeticOverflow
  else if actual = total then pure batch
  else if actual = 0 then do
    Prog.modify fun books => books.dropCharges batch
    pure []
  else
    match batch with
    | [] => Prog.fail .ledgerInvariant
    | first :: _ => normalizePartial batch first total actual answer room

/-! ### All owners that are alive -/

/-- The ledger and everything that holds bytes of it.  `detached` is what `commit` has given away:
    bytes that stay committed and that nobody holds. -/
structure World where
  books : Books
  reservations : List Reservation
  charges : List Charge
  pairs : List PairedLuaCharges
  batches : List (List Charge)
  detached : List Charge
  deriving DecidableEq, Repr

/-- A new ledger, with an admission of the host or without. -/
def World.new (limit : Nat) (external : Bool) : World :=
  ⟨⟨.new limit, external, [], []⟩, [], [], [], [], []⟩

/-- The operations; owners are named by their place among those alive, and `answer` and `room` are
    what the admission and the Rust allocator say. -/
inductive Op where
  | reserve (bytes : Nat) (domain : Domain) (point : Option FailPoint) (answer : Option Nat)
  | reserveBacking (bytes : Nat) (domain : Domain) (point : FailPoint) (answer : Option Nat)
      (room : Bool)
  | commit (reservation : Nat)
  | commitCharge (reservation : Nat)
  | dropReservation (reservation : Nat)
  | dropCharge (charge : Nat)
  | newPair
  | replaceFirst (pair charge : Nat)
  | replaceSecond (pair charge : Nat)
  | clearSecond (pair : Nat)
  | dropPair (pair : Nat)
  | newBatch
  | tryPush (batch charge : Nat) (room : Bool)
  | tryAbsorb (batch other : Nat) (room : Bool)
  | normalize (batch actual : Nat) (answer : Option Nat) (room : Bool)
  | dropBatch (batch : Nat)
  | setLimit (limit : Nat)
  | failOnceAtOrdinal (ordinal : Nat)
  | failOnceAt (point : FailPoint)
  deriving DecidableEq, Repr

namespace World

/-- How an operation ends, and the world behind it. -/
abbrev Outcome := Except VmError Unit × World

/-- A reservation that was asked for joins those alive. -/
def keepReservation (w : World) : Except VmError Reservation × Books → Outcome
  | (.ok r, books) => (.ok (), { w with books := books, reservations := r :: w.reservations })
  | (.error e, books) => (.error e, { w with books := books })

/-- `commit` and `commit_charge` use their reservation up. -/
def stepCommit (w : World) (i : Nat) (r : Reservation) : Outcome :=
  match commit r w.books with
  | (.ok charge, books) => (.ok (), { w with
      books := books, reservations := w.reservations.eraseIdx i, detached := charge :: w.detached })
  | (.error e, books) =>
    (.error e, { w with books := books, reservations := w.reservations.eraseIdx i })

@[inherit_doc stepCommit]
def stepCommitCharge (w : World) (i : Nat) (r : Reservation) : Outcome :=
  match commitCharge r w.books with
  | (.ok charge, books) => (.ok (), { w with
      books := books, reservations := w.reservations.eraseIdx i, charges := charge :: w.charges })
  | (.error e, books) =>
    (.error e, { w with books := books, reservations := w.reservations.eraseIdx i })

/-- A charge moves into a part of a pair. -/
def stepReplace (w : World) (p c : Nat) (result : PairedLuaCharges × Books) : Outcome :=
  (.ok (), { w with
    books := result.2, pairs := w.pairs.set p result.1, charges := w.charges.eraseIdx c })

/-- A charge moves into a batch, or is handed back. -/
def stepPush (w : World) (b c : Nat) (batch : List Charge) (charge : Charge) (room : Bool) :
    Outcome :=
  match tryPush batch charge room with
  | .ok batch => (.ok (), { w with
      batches := w.batches.set b batch, charges := w.charges.eraseIdx c })
  | .error e => (.error e, w)

/-- The charges of one batch move into another one. -/
def stepAbsorb (w : World) (b o : Nat) (batch other : List Charge) (room : Bool) : Outcome :=
  match tryAbsorb batch other room with
  | .ok batch => (.ok (), { w with batches := (w.batches.set b batch).set o [] })
  | .error e => (.error e, w)

/-- A batch is emptied into a new one. -/
def stepNormalize (w : World) (b : Nat) : Except VmError (List Charge) × Books → Outcome
  | (.ok next, books) => (.ok (), { w with
      books := books, batches := next :: w.batches.set b [] })
  | (.error e, books) => (.error e, { w with books := books })

/-- One operation; `none` where an owner is not there, where one batch is to absorb itself, and
    where a pair is given bytes of the host, which its callers do not do. -/
def step (w : World) : Op → Option Outcome
  | .reserve bytes domain point answer =>
    some (w.keepReservation (reserveAt bytes domain point answer w.books))
  | .reserveBacking bytes domain point answer room =>
    some (w.keepReservation (Allocation.reserveBacking bytes domain point answer room w.books))
  | .commit i => w.reservations[i]?.map fun r => w.stepCommit i r
  | .commitCharge i => w.reservations[i]?.map fun r => w.stepCommitCharge i r
  | .dropReservation i => w.reservations[i]?.map fun r => (.ok (), { w with
      books := w.books.dropReservation r, reservations := w.reservations.eraseIdx i })
  | .dropCharge c => w.charges[c]?.map fun charge => (.ok (), { w with
      books := w.books.dropCharge charge, charges := w.charges.eraseIdx c })
  | .newPair => some (.ok (), { w with pairs := .new :: w.pairs })
  | .replaceFirst p c => do
    let pair ← w.pairs[p]?
    let charge ← w.charges[c]?
    if charge.domain = .luaHeap then some (w.stepReplace p c (w.books.replaceFirst pair charge))
    else none
  | .replaceSecond p c => do
    let pair ← w.pairs[p]?
    let charge ← w.charges[c]?
    if charge.domain = .luaHeap then some (w.stepReplace p c (w.books.replaceSecond pair charge))
    else none
  | .clearSecond p => w.pairs[p]?.map fun pair =>
      let (pair, books) := w.books.clearSecond pair
      (.ok (), { w with books := books, pairs := w.pairs.set p pair })
  | .dropPair p => w.pairs[p]?.map fun pair => (.ok (), { w with
      books := w.books.dropPair pair, pairs := w.pairs.eraseIdx p })
  | .newBatch => some (.ok (), { w with batches := [] :: w.batches })
  | .tryPush b c room => do
    let batch ← w.batches[b]?
    let charge ← w.charges[c]?
    some (w.stepPush b c batch charge room)
  | .tryAbsorb b o room => do
    let batch ← w.batches[b]?
    let other ← w.batches[o]?
    if b = o then none else some (w.stepAbsorb b o batch other room)
  | .normalize b actual answer room => w.batches[b]?.map fun batch =>
      w.stepNormalize b (Allocation.normalize batch actual answer room w.books)
  | .dropBatch b => w.batches[b]?.map fun batch => (.ok (), { w with
      books := w.books.dropCharges batch, batches := w.batches.eraseIdx b })
  | .setLimit limit => some (.ok (), { w with
      books := { w.books with state := { w.books.state with limit := limit } } })
  | .failOnceAtOrdinal ordinal => some (.ok (), { w with
      books := { w.books with state := { w.books.state with failAtOrdinal := some ordinal } } })
  | .failOnceAt point => some (.ok (), { w with
      books := { w.books with state := { w.books.state with failOnce := some point } } })

/-- The worlds a new ledger can get into. -/
inductive Reachable (limit : Nat) (external : Bool) : World → Prop
  | new : Reachable limit external (World.new limit external)
  | step {w : World} {op : Op} {outcome : Outcome} (h : Reachable limit external w)
      (hstep : w.step op = some outcome) : Reachable limit external outcome.2

end World

end RivetLua.Runtime.Allocation
