import RivetLua.Runtime.Mutator
import RivetLua.Runtime.AllocationLedger

namespace RivetLua.Runtime.Allocation

open RivetLua.Core RivetLua.Gc StateProg

/-!
# Runtime — the raw write with its accounts

`Vm.rawSet` asks a ledger that only says yes or no.  Here each request is made in bytes: it takes a
reservation, the reservation becomes a charge before anything is published, and whatever is held when
a step fails is dropped.

* `canonicalKey`, `prepareSet`, `prepareRefPair`, `prepareBarrier` — the preparation, which reads the
  heap and takes reservations;
* `commitPrepared` — all reservations become charges, or all of them are dropped;
* `rawSetWithNewKeySource`, `rawSetRefPair` — prepare, commit, and only then publish.
-/

/-- The places of a raw write that ask for memory. -/
inductive Site where
  | keyBytes | keySlot | keySlotExtra | deadBytes | arrayGrow | hashGrow
  | rememberedCharges | remembered
  deriving DecidableEq, Repr

/-- What a raw write finds around it: the token the host gives at each place, whether the Rust
    allocator has room there, and what it makes of a vector of one key. -/
structure Surroundings where
  token : Site → Option Nat
  room : Site → Bool
  keyCapacity : Nat
  stringKeySize : Nat
  /-- Strings of the heap that share their bytes with their keys. -/
  managedShared : ObjectRef → Bool

namespace Surroundings

/-- `reserve_vec` for bytes that are known to be countable. -/
def reserveVec (s : Surroundings) (site : Site) (bytes : Nat) (domain : Domain)
    (point : FailPoint) : BooksM Reservation :=
  reserveBacking bytes domain point (s.token site) (s.room site)

end Surroundings

/-! ### What a preparation holds -/

/-- The `Drop` of a reservation that may have been taken. -/
def Books.dropReservation? (books : Books) (r : Option Reservation) : Books :=
  r.elim books books.dropReservation

/-- The `Drop` of a charge that may have been taken. -/
def Books.dropCharge? (books : Books) (charge : Option Charge) : Books :=
  charge.elim books books.dropCharge

/-- The charges of a `StringKey`; other keys have none. -/
structure KeyCharges where
  charge : Option Charge
  slotCharge : Option Charge
  slotExtraCharge : Option Charge
  deriving DecidableEq, Repr

/-- A key without charges. -/
def KeyCharges.none : KeyCharges := ⟨.none, .none, .none⟩

/-- The charges in the order of their `Drop`. -/
def KeyCharges.toList (charges : KeyCharges) : List Charge :=
  charges.charge.toList ++ charges.slotCharge.toList ++ charges.slotExtraCharge.toList

/-- The `Drop` of the charges of a key. -/
def Books.dropKey (books : Books) (charges : KeyCharges) : Books :=
  books.dropCharges charges.toList

/-- A canonical key with its charges. -/
structure OwnedKey where
  key : CanonicalKey
  charges : KeyCharges

/-- The new storage of a part of a table: its reservation, until that has become a charge. -/
structure Growth where
  ticket : Option Reservation
  charge : Option Charge
  deriving DecidableEq, Repr

/-- The `Drop` of a new storage that is not published. -/
def Books.dropGrowth (books : Books) (growth : Growth) : Books :=
  (books.dropReservation? growth.ticket).dropCharge? growth.charge

/-- Commit a reservation; a charge that was there before is dropped in any case. -/
def commitInto (ticket : Reservation) (old : Option Charge) : BooksM Charge := do
  let charge ← Prog.onError (commitCharge ticket) (Prog.modify (·.dropCharge? old))
  Prog.modify (·.dropCharge? old)
  pure charge

/-- `commit_growth`. -/
def Growth.commit (growth : Growth) : BooksM Growth :=
  match growth.ticket with
  | some ticket => do
    let charge ← commitInto ticket growth.charge
    pure ⟨none, some charge⟩
  | none => do
    Prog.modify (·.dropCharge? growth.charge)
    Prog.fail .ledgerInvariant

/-! ### Keys -/

namespace Surroundings

variable (s : Surroundings)

/-- A copy of some bytes. -/
def copyBytes (site : Site) (bytes : List UInt8) : BooksM Charge := do
  let ticket ← s.reserveVec site bytes.length .luaHeap .stringBytesReserve
  commitCharge ticket

/-- What the Rust allocator gives beyond the one entry of a long key. -/
def slotExtra : BooksM (Option Charge) := do
  let extra := s.keyCapacity - 1
  if extra = 0 then pure none
  else if extra * s.stringKeySize > usizeMax then Prog.fail .arithmeticOverflow
  else do
    let ticket ← reserveBacking (extra * s.stringKeySize) .luaHeap .tableKeyReserve
      (s.token .keySlotExtra) true
    let charge ← commitCharge ticket
    pure (some charge)

/-- The bytes of a long key: it has no charge for bytes that it shares with the string. -/
def keyBytes (source : ObjectRef) (bytes : List UInt8) (external : Bool) :
    BooksM (Option Charge) :=
  if external || s.managedShared source then pure none else some <$> s.copyBytes .keyBytes bytes

/-- The key of a string that is too long to be stored inline. -/
def longStringKey (source : ObjectRef) (bytes : List UInt8) (external : Bool) :
    BooksM OwnedKey := do
  let charge ← s.keyBytes source bytes external
  let slot ← Prog.onError (do
      let ticket ← s.reserveVec .keySlot s.stringKeySize .luaHeap .tableKeyReserve
      let extraCharge ← Prog.onError s.slotExtra (Prog.modify (·.dropReservation ticket))
      let slotCharge ← Prog.onError (commitCharge ticket) (Prog.modify (·.dropCharge? extraCharge))
      pure (slotCharge, extraCharge))
    (Prog.modify (·.dropCharge? charge))
  pure ⟨.byteString source bytes external, charge, some slot.1, slot.2⟩

/-- `canonical_key`. -/
def canonicalKey (vm : Vm) (value : Value) : BooksM (Option OwnedKey) :=
  let plain (key : CanonicalKey) : BooksM (Option OwnedKey) := pure (some ⟨key, .none⟩)
  match value with
  | .nil => pure none
  | .integer i => plain (.integer i)
  | .boolean b => plain (.boolean b)
  | .lightUserdata a => plain (.lightUserdata a)
  | .cFunction id => if id.vm ≠ vm.id then Prog.fail .wrongVm else plain (.cFunction id)
  | .float x =>
    if x.isNan then pure none
    else
      match x.toI64? with
      | some i => plain (.integer i)
      | none => plain (.float x)
  | .object source => do
    let kind ← Prog.ofExcept (vm.objectKind source)
    if kind = .byteString then do
      let string ← Prog.ofExcept (vm.byteString source)
      if string.1.length ≤ inlineKeyLength then plain (.shortString source string.1)
      else some <$> s.longStringKey source string.1 string.2
    else do
      let id ← Prog.ofOption .staleObject source.identity
      plain (.object source id)

/-- `make_dead`: bytes of the host are copied, and the copy has a charge of its own.  A key that
    cannot be copied is dropped with the preparation it is part of. -/
def makeDead (key : OwnedKey) : BooksM OwnedKey :=
  match key.key with
  | .shortString source bytes => pure { key with key := .deadShortString source bytes }
  | .byteString source bytes true => do
    let charge ← Prog.onError (s.copyBytes .deadBytes bytes)
      (Prog.modify (·.dropKey key.charges))
    Prog.modify (·.dropCharge? key.charges.charge)
    pure ⟨.byteString source bytes false, { key.charges with charge := some charge }⟩
  | _ => pure key

end Surroundings

/-! ### The mutation -/

/-- A `PreparedTableMutation` with what it holds. -/
inductive PreparedWrite where
  | noop
  | arraySlot (index : Nat) (value : Value)
  | hashSlot (index : Nat) (value : Value) (deadKey : Option OwnedKey)
  | hashReplace (index : Nat) (key : OwnedKey) (value : Value)
  | hashInsert (index : Nat) (key : OwnedKey) (value : Value)
  | growArray (next : List (Option Value)) (growth : Growth) (value : Value)
  | growHash (next : List Bucket) (growth : Growth) (existingCount : Nat) (key : OwnedKey)
      (value : Value)

namespace PreparedWrite

/-- What happens to the table. -/
def mutation : PreparedWrite → PreparedTableMutation
  | noop => .noop
  | arraySlot index value => .arraySlot index value
  | hashSlot index value deadKey => .hashSlot index value (deadKey.map OwnedKey.key)
  | hashReplace index key value => .hashReplace index key.key value
  | hashInsert index key value => .hashInsert index key.key value
  | growArray next _ value => .growArray next value
  | growHash next _ existingCount key value => .growHash next existingCount key.key value

/-- The charges of the key that goes into the table. -/
def keyCharges : PreparedWrite → KeyCharges
  | noop | arraySlot .. | growArray .. => .none
  | hashSlot _ _ deadKey => deadKey.elim .none OwnedKey.charges
  | hashReplace _ key _ | hashInsert _ key _ | growHash _ _ _ key _ => key.charges

/-- The new storage that goes into the table. -/
def growth : PreparedWrite → Option Growth
  | growArray _ growth _ | growHash _ growth _ _ _ => some growth
  | _ => none

/-- The mutation with another state of its storage. -/
def withGrowth (write : PreparedWrite) (growth : Growth) : PreparedWrite :=
  match write with
  | growArray next _ value => growArray next growth value
  | growHash next _ existingCount key value => growHash next growth existingCount key value
  | write => write

/-- `commit_accounting`; if it fails, the key is dropped with the rest of the mutation. -/
def commitAccounting (write : PreparedWrite) : BooksM PreparedWrite :=
  match write.growth with
  | some growth => do
    let growth ← Prog.onError growth.commit (Prog.modify (·.dropKey write.keyCharges))
    pure (write.withGrowth growth)
  | none => pure write

end PreparedWrite

/-- The `Drop` of a mutation that is not published. -/
def Books.dropWrite (books : Books) (write : PreparedWrite) : Books :=
  (write.growth.elim books books.dropGrowth).dropKey write.keyCharges

/-- The place of a key that is not in the table. -/
inductive Placement where
  | arraySlot (index : Nat)
  | hashReplace (index : Nat)
  | hashInsert (index : Nat)
  | growArray (next : List (Option Value)) (ticket : Reservation)
  | growHash (next : List Bucket) (ticket : Reservation) (existingCount : Nat)

/-- The mutation that puts a key there. -/
def Placement.write (placement : Placement) (key : OwnedKey) (value : Value) : PreparedWrite :=
  match placement with
  | arraySlot index => .arraySlot index value
  | hashReplace index => .hashReplace index key value
  | hashInsert index => .hashInsert index key value
  | growArray next ticket => .growArray next ⟨some ticket, none⟩ value
  | growHash next ticket existingCount =>
    .growHash next ⟨some ticket, none⟩ existingCount key value

/-- Is the key stored there?  The array part has none. -/
def Placement.storesKey : Placement → Bool
  | arraySlot .. | growArray .. => false
  | hashReplace .. | hashInsert .. | growHash .. => true

section Prepare

variable [DefaultHasher] (s : Surroundings) (t : Table)

/-- The part of `prepare_set` that takes an empty bucket or grows the hash part. -/
def prepareInsert (key : CanonicalKey) : BooksM Placement :=
  let count := t.liveHashCount
  let occupied := t.hash.countP Option.isSome
  let capacity := t.hash.length
  let needed := count + 1
  if capacity = 0 ∨ occupied ≥ capacity ∨ needed > capacity - capacity / 4 then
    let newCapacity := max (capacity * 2) 1
    if capacity * 2 > usizeMax then Prog.fail .arithmeticOverflow
    else if needed > newCapacity then Prog.fail .ledgerInvariant
    else if newCapacity * bucketSize > usizeMax then Prog.fail .arithmeticOverflow
    else do
      let ticket ← s.reserveVec .hashGrow (newCapacity * bucketSize) .luaHeap .tableHashGrow
      Prog.onError (do
          checkpointAt .tableRehash
          checkpointAt .tableInsert)
        (Prog.modify (·.dropReservation ticket))
      pure (.growHash (List.replicate newCapacity none) ticket count)
  else do
    checkpointAt .tableInsert
    let start := t.bucket key capacity
    let index ← Prog.ofOption .ledgerInvariant
      ((Table.probes start capacity).find? fun index => (t.hash[index]?).join.isNone)
    pure (.hashInsert index)

/-- The part of `prepare_set` that tries the array part first. -/
def prepareAbsent (key : CanonicalKey) (value : Value) : BooksM Placement :=
  match key.arrayIndex with
  | some index =>
    if index < t.array.length then do
      checkpointAt .tableInsert
      pure (.arraySlot index)
    else if index = t.array.length then
      let oldCapacity := t.array.length
      let newCapacity := max (oldCapacity * 2) 4
      if oldCapacity * 2 > usizeMax then Prog.fail .arithmeticOverflow
      else if newCapacity * optionValueSize > usizeMax then Prog.fail .arithmeticOverflow
      else do
        let ticket ← s.reserveVec .arrayGrow (newCapacity * optionValueSize) .luaHeap
          .tableArrayGrow
        Prog.onError (checkpointAt .tableInsert) (Prog.modify (·.dropReservation ticket))
        let next :=
          (t.array ++ List.replicate (newCapacity - oldCapacity) none).set index (some value)
        pure (.growArray next ticket)
    else prepareInsert s t key
  | none => prepareInsert s t key

/-- The part of `prepare_set` for a field that is absent: a dead bucket of the key is revived while
    the load allows it. -/
def preparePlacement (key : CanonicalKey) (value : Value) : BooksM Placement :=
  match t.findAnyHash key with
  | some index =>
    if t.liveHashCount + 1 ≤ t.hash.length - t.hash.length / 4 then do
      checkpointAt .tableInsert
      pure (.hashReplace index)
    else prepareAbsent s t key value
  | none => prepareAbsent s t key value

/-- `prepare_set`: a key that does not go into the table is dropped. -/
def prepareSet (key : OwnedKey) (value : Value) : BooksM PreparedWrite :=
  let dropKey : BooksM Unit := Prog.modify (·.dropKey key.charges)
  match key.key.arrayIndex.filter fun index => (t.slot index).isSome with
  | some index => do
    dropKey
    pure (.arraySlot index value)
  | none =>
    match t.findHash key.key with
    | some index =>
      if value = .nil then do
        let dead ← s.makeDead key
        pure (.hashSlot index value (some dead))
      else do
        dropKey
        pure (.hashSlot index value none)
    | none =>
      if value = .nil then do
        dropKey
        pure .noop
      else do
        let placement ← Prog.onError (preparePlacement s t key.key value) dropKey
        if placement.storesKey then pure (placement.write key value)
        else do
          dropKey
          pure (placement.write key value)

end Prepare

/-! ### The heap and its accounts -/

/-- The charges of a table: those of its two parts, and those of the key in each bucket. -/
structure TableAccount where
  charges : PairedLuaCharges
  keys : List KeyCharges
  deriving DecidableEq, Repr

/-- The charges of the key in a bucket. -/
def TableAccount.keyAt (account : TableAccount) (index : Nat) : KeyCharges :=
  account.keys.getD index .none

/-- The VM with its counters and with everything that a raw write charges. -/
structure AccountedVm where
  vm : Vm
  barrierCount : Nat
  transitionCount : Nat
  rememberedCharge : Nat
  rememberedCharges : List Charge
  accounts : Nat → TableAccount
  books : Books

/-- A program of the books, run inside the VM. -/
def liftBooks {α : Type} (m : BooksM α) : Prog AccountedVm VmError α :=
  Prog.focus AccountedVm.books (fun st books => { st with books := books }) m

/-! ### The barrier -/

/-- `PreparedTableBarrier` with its reservation. -/
structure TicketedBarrier where
  rememberedTicket : Option Reservation
  rememberedCharge : Option Nat
  rememberedAccounted : Option Charge
  marks : List (ObjectRef × Nat)
  barrierCount : Nat

namespace TicketedBarrier

/-- `PreparedTableBarrier::commit_accounting`. -/
def commitAccounting (barrier : TicketedBarrier) : BooksM TicketedBarrier :=
  match barrier.rememberedTicket with
  | some ticket => do
    let charge ← commitInto ticket barrier.rememberedAccounted
    pure { barrier with rememberedTicket := none, rememberedAccounted := some charge }
  | none => pure barrier

/-- What the barrier does to the collector. -/
def plain (barrier : TicketedBarrier) : PreparedTableBarrier :=
  ⟨barrier.rememberedCharge.isSome, barrier.marks⟩

/-- `PreparedTableBarrier::apply`. -/
def apply (barrier : TicketedBarrier) (owner : ObjectRef) (st : AccountedVm) : AccountedVm :=
  { st with
    vm := { st.vm with gc := barrier.plain.apply owner st.vm.gc }
    barrierCount := barrier.barrierCount
    transitionCount :=
      if st.vm.gc.phase = .sweep ∧ barrier.marks ≠ [] then st.transitionCount + 1
      else st.transitionCount
    rememberedCharge := barrier.rememberedCharge.getD st.rememberedCharge
    rememberedCharges :=
      if barrier.rememberedCharge.isSome then
        st.rememberedCharges ++ barrier.rememberedAccounted.toList
      else st.rememberedCharges }

end TicketedBarrier

/-- The part of `prepare_table_write_barrier_edges` that takes room in the remembered set. -/
def Surroundings.reserveRemembered (s : Surroundings) (st : AccountedVm) :
    BooksM (Reservation × Nat) :=
  if st.rememberedCharge + objectRefSize > usizeMax then Prog.fail .arithmeticOverflow
  else if s.room .rememberedCharges = false then Prog.fail .allocationFailed
  else do
    let ticket ← s.reserveVec .remembered objectRefSize .host .rememberedReserve
    pure (ticket, st.rememberedCharge + objectRefSize)

/-- `prepare_table_write_barrier_edges`. -/
def Surroundings.prepareBarrier (s : Surroundings) (st : AccountedVm) (owner : ObjectRef)
    (first second : RefField × Option ObjectRef) : BooksM TicketedBarrier := do
  let vm := st.vm
  let o ← Prog.ofExcept (vm.checkedSlot owner)
  let t ← Prog.ofExcept (vm.table owner)
  let ownerOld := decide (vm.gc.mode = .generational) && decide (o.age = .old)
  let ownerBlack ← Prog.ofExcept (vm.ownerBlack owner)
  let edge ← Prog.ofExcept (vm.prepareEdge? t.weakMode ownerOld ownerBlack first.1 first.2)
  let edge' ← Prog.ofExcept (vm.prepareEdge? t.weakMode ownerOld ownerBlack second.1 second.2)
  let marks := mergeMarks edge.2 edge'.2
  if vm.gc.workCapacity - vm.gc.work.length < marks.length then Prog.fail .allocationFailed
  else if st.barrierCount + marks.length > usizeMax then Prog.fail .arithmeticOverflow
  else if vm.gc.phase = .sweep ∧ 0 < marks.length ∧ st.transitionCount + 1 > usizeMax then
    Prog.fail .arithmeticOverflow
  else if (edge.1 || edge'.1) && !decide (owner ∈ vm.gc.remembered) then do
    let remembered ← s.reserveRemembered st
    pure ⟨some remembered.1, some remembered.2, none, marks, st.barrierCount + marks.length⟩
  else pure ⟨none, none, none, marks, st.barrierCount + marks.length⟩

/-! ### Committing and publishing one field -/

/-- The accounts behind a mutation: a key that leaves the table is dropped, and the charge of a
    part that grew takes the place of the old one. -/
def PreparedWrite.settle (write : PreparedWrite) (t : Table) (account : TableAccount)
    (books : Books) : TableAccount × Books :=
  match write with
  | .noop | .arraySlot .. => (account, books)
  | .hashSlot index value deadKey =>
    if value = .nil then
      ({ account with keys := account.keys.set index ((deadKey.map OwnedKey.charges).getD .none) },
        books.dropCharges (account.keyAt index).toList)
    else (account, books)
  | .hashReplace index key _ | .hashInsert index key _ =>
    ({ account with keys := account.keys.set index key.charges },
      books.dropCharges (account.keyAt index).toList)
  | .growArray _ growth _ =>
    match growth.charge with
    | some charge =>
      let (pair, books) := books.replaceFirst account.charges charge
      ({ account with charges := pair }, books)
    | none => (account, books)
  | .growHash next growth existingCount key _ =>
    let placed := t.hash.zipIdx.map fun entry => (entry.1, account.keyAt entry.2)
    let live := (placed.filter fun entry => Bucket.isLive entry.1).map Prod.snd
    let dead := (placed.filter fun entry => !Bucket.isLive entry.1).flatMap fun entry =>
      entry.2.toList
    let keys := (live ++ List.replicate (next.length - live.length) KeyCharges.none).set existingCount
      key.charges
    let books := books.dropCharges dead
    match growth.charge with
    | some charge =>
      let (pair, books) := books.replaceSecond account.charges charge
      (⟨pair, keys⟩, books)
    | none => ({ account with keys := keys }, books)

/-- `commit_prepared_table_write`, before the publication: both accounts are committed, or both are
    dropped. -/
def commitPrepared (barrier : TicketedBarrier) (write : PreparedWrite) :
    BooksM (TicketedBarrier × PreparedWrite) := do
  let barrier ← Prog.onError barrier.commitAccounting (Prog.modify (·.dropWrite write))
  let write ← Prog.onError write.commitAccounting
    (Prog.modify (·.dropCharge? barrier.rememberedAccounted))
  pure (barrier, write)

/-- The publication. -/
def publishWrite (table : ObjectRef) (index : Nat) (t : Table) (barrier : TicketedBarrier)
    (write : PreparedWrite) (st : AccountedVm) : AccountedVm :=
  let st := barrier.apply table st
  let settled := write.settle t (st.accounts index) st.books
  { st with
    vm := st.vm.setPayload index (.table (write.mutation.apply t))
    accounts := Function.update st.accounts index settled.1
    books := settled.2 }

/-- Is a key not a number? -/
def isNanKey : Value → Bool
  | .float x => x.isNan
  | _ => false

/-- `raw_set_with_new_key_source`. -/
def rawSetWithNewKeySource [DefaultHasher] (s : Surroundings) (table : ObjectRef)
    (key value : Value) : Prog AccountedVm VmError (Option ObjectRef) := do
  let st ← Prog.get
  let t ← Prog.ofExcept (st.vm.table table)
  let id ← Prog.ofOption .staleObject table.identity
  if Table.foreignFunction st.vm value then Prog.fail .wrongVm
  else if key = .nil then Prog.fail .nilTableKey
  else if isNanKey key then Prog.fail .nanTableKey
  else do
    let canonical ← liftBooks (s.canonicalKey st.vm key)
    let canonical ← Prog.ofOption .ledgerInvariant canonical
    let write ← liftBooks (prepareSet s t canonical value)
    let edges := write.mutation.newEdges
    let barrier ← liftBooks (Prog.onError
      (s.prepareBarrier st table (.tableKey, edges.1) (.tableValue, edges.2)) (Prog.modify (·.dropWrite write)))
    let committed ← liftBooks (commitPrepared barrier write)
    Prog.modify (publishWrite table id.slot t committed.1 committed.2)
    pure edges.1

/-- `raw_set`. -/
def rawSet [DefaultHasher] (s : Surroundings) (table : ObjectRef) (key value : Value) :
    Prog AccountedVm VmError Unit := do
  let _ ← rawSetWithNewKeySource s table key value
  pure ()

end RivetLua.Runtime.Allocation
