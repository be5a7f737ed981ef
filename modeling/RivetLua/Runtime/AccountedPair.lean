import RivetLua.Runtime.AccountedWrite

namespace RivetLua.Runtime.Allocation

open RivetLua.Core StateProg

/-!
# Runtime — two fields written at once

`raw_set_ref_pair` writes two integer fields with one preparation and one barrier: each part of the
table grows at most once, and every failure comes before the first of the two fields changes.

* `prepareRefPair` — where the two fields go, and the storage they need;
* `commitPreparedPair`, `rawSetRefPair` — the commit of both storages, and the publication.
-/

/-- `RefPairSlot`. -/
inductive RefPairSlot where
  | array (index : Nat)
  | hashExisting (index : Nat)
  | hashNew (index : Nat)
  deriving DecidableEq, Repr

/-- `RefPairEntry`. -/
structure RefPairEntry where
  key : Int64
  value : Value
  slot : RefPairSlot

/-- `RefPairGrowth`. -/
structure RefPairGrowth (α : Type) where
  next : List α
  growth : Growth
  oldBytes : Nat
  newBytes : Nat

/-- The `Drop` of a growth that may be needed. -/
def Books.dropGrowth? {α : Type} (books : Books) (growth : Option (RefPairGrowth α)) : Books :=
  growth.elim books fun growth => books.dropGrowth growth.growth

/-- The commit of a growth that may be needed. -/
def RefPairGrowth.commit? {α : Type} (growth : Option (RefPairGrowth α)) :
    BooksM (Option (RefPairGrowth α)) :=
  match growth with
  | some growth => do
    let committed ← growth.growth.commit
    pure (some { growth with growth := committed })
  | none => pure none

/-- `PreparedRefPair`. -/
structure PreparedRefPair where
  entries : List RefPairEntry
  arrayGrowth : Option (RefPairGrowth (Option Value))
  hashGrowth : Option (RefPairGrowth Bucket)

/-! ### Preparation -/

/-- The two writes; of two writes to one key the second remains. -/
def refPairValues (first second : Int64 × Value) : List (Int64 × Value) :=
  if first.1 = second.1 then [second] else [first, second]

/-- `checked_mul(2)`, and at least `least`. -/
def doubled (length least : Nat) : Except VmError Nat :=
  if length * 2 > usizeMax then .error .arithmeticOverflow else .ok (max (length * 2) least)

section Prepare

variable [DefaultHasher] (s : Surroundings) (t : Table)

/-- The length of the array part: it grows while one of the keys is right behind it. -/
def refArrayLength (keys : List Int64) : Nat → Nat → Except VmError Nat
  | 0, length => .ok length
  | rounds + 1, length =>
    if keys.any fun key => decide ((CanonicalKey.integer key).arrayIndex = some length)
        && (t.findHash (.integer key)).isNone then do
      let length ← doubled length 4
      refArrayLength keys rounds length
    else .ok length

/-- The place of one write, and whether it makes one more bucket live. -/
def refSlot (arrayLength : Nat) (key : Int64) : BooksM (RefPairSlot × Nat) :=
  let canonical : CanonicalKey := .integer key
  match canonical.arrayIndex.filter fun index => (t.slot index).isSome with
  | some index => pure (.array index, 0)
  | none =>
    match t.findAnyHash canonical with
    | some index =>
      if (t.entry index).any fun entry => decide (entry.2 = .nil) then do
        checkpointAt .tableInsert
        pure (.hashExisting index, 1)
      else pure (.hashExisting index, 0)
    | none => do
      checkpointAt .tableInsert
      match canonical.arrayIndex.filter fun index => decide (index < arrayLength) with
      | some index => pure (.array index, 0)
      | none => pure (.hashNew 0, 1)

/-- The places of all writes, and how many buckets become live. -/
def refSlots (arrayLength : Nat) : List (Int64 × Value) → BooksM (List RefPairEntry × Nat)
  | [] => pure ([], 0)
  | item :: rest => do
    let slot ← refSlot t arrayLength item.1
    let others ← refSlots arrayLength rest
    pure (⟨item.1, item.2, slot.1⟩ :: others.1, slot.2 + others.2)

/-- The length of the hash part for the required number of buckets.  Doubling stops at the latest
    where a length is no `usize`. -/
def refHashLength (required occupied inserts : Nat) : Nat → Nat → Except VmError Nat
  | 0, _ => .error .arithmeticOverflow
  | rounds + 1, length =>
    if required > length - length / 4 ∨ occupied + inserts > length then do
      let length ← doubled length 1
      refHashLength required occupied inserts rounds length
    else .ok length

/-- The final bucket of a write into the hash part.  In a hash part that grows, the live buckets move
    to the front and the new ones follow. -/
def placeSlot (grows : Bool) (state : Nat × List Nat) (key : Int64) :
    RefPairSlot → Except VmError (RefPairSlot × Nat × List Nat)
  | .hashExisting index =>
    if grows then
      if (t.entry index).any fun entry => decide (entry.2 = .nil) then
        .ok (.hashNew state.1, state.1 + 1, state.2)
      else .ok (.hashExisting ((t.hash.take index).countP Bucket.isLive), state)
    else .ok (.hashExisting index, state)
  | .hashNew _ =>
    if grows then .ok (.hashNew state.1, state.1 + 1, state.2)
    else
      let count := t.hash.length
      match (Table.probes (t.bucket (.integer key) count) count).find? fun index =>
          (t.hash[index]?).join.isNone && !state.2.contains index with
      | some index => .ok (.hashNew index, state.1, index :: state.2)
      | none => .error .ledgerInvariant
  | .array index => .ok (.array index, state)

/-- The final places of all writes. -/
def placeSlots (grows : Bool) : Nat × List Nat → List RefPairEntry →
    Except VmError (List RefPairEntry)
  | _, [] => .ok []
  | state, entry :: rest => do
    let placed ← placeSlot t grows state entry.key entry.slot
    let others ← placeSlots grows placed.2 rest
    .ok ({ entry with slot := placed.1 } :: others)

/-- The new array part, if it grows. -/
def growRefArray (arrayLength : Nat) : BooksM (Option (RefPairGrowth (Option Value))) :=
  if arrayLength > t.array.length then
    if arrayLength * optionValueSize > usizeMax then Prog.fail .arithmeticOverflow
    else do
      let ticket ← s.reserveVec .arrayGrow (arrayLength * optionValueSize) .luaHeap
        .tableArrayGrow
      pure (some ⟨t.array ++ List.replicate (arrayLength - t.array.length) none,
        ⟨some ticket, none⟩, t.array.length * optionValueSize, arrayLength * optionValueSize⟩)
  else pure none

/-- The new hash part, if it grows. -/
def growRefHash (hashLength : Nat) : BooksM (Option (RefPairGrowth Bucket)) :=
  if hashLength > t.hash.length then
    if hashLength * bucketSize > usizeMax then Prog.fail .arithmeticOverflow
    else do
      let ticket ← s.reserveVec .hashGrow (hashLength * bucketSize) .luaHeap .tableHashGrow
      Prog.onError (checkpointAt .tableRehash) (Prog.modify (·.dropReservation ticket))
      pure (some ⟨List.replicate hashLength none, ⟨some ticket, none⟩,
        t.hash.length * bucketSize, hashLength * bucketSize⟩)
  else pure none

/-- `prepare_ref_pair`. -/
def prepareRefPair (first second : Int64 × Value) : BooksM PreparedRefPair := do
  let values := refPairValues first second
  if values.any fun item => decide (item.2 = .nil) then Prog.fail .ledgerInvariant
  else do
    let arrayLength ← Prog.ofExcept (refArrayLength t (values.map Prod.fst) 2 t.array.length)
    let slots ← refSlots t arrayLength values
    let arrayGrowth ← growRefArray s t arrayLength
    let hash ← Prog.onError (do
        let hashLength ← Prog.ofExcept (refHashLength (t.liveHashCount + slots.2)
          (t.hash.countP Option.isSome) slots.2 65 t.hash.length)
        let hashGrowth ← growRefHash s t hashLength
        let entries ← Prog.onError (Prog.ofExcept
            (placeSlots t hashGrowth.isSome (t.liveHashCount, []) slots.1))
          (Prog.modify (·.dropGrowth? hashGrowth))
        pure (entries, hashGrowth))
      (Prog.modify (·.dropGrowth? arrayGrowth))
    pure ⟨hash.1, arrayGrowth, hash.2⟩

end Prepare

/-! ### Committing and publishing -/

/-- The `Drop` of a pair that is not published. -/
def Books.dropRefPair (books : Books) (pair : PreparedRefPair) : Books :=
  (books.dropGrowth? pair.arrayGrowth).dropGrowth? pair.hashGrowth

namespace PreparedRefPair

variable (pair : PreparedRefPair)

/-- The edge of the write at a place; the first of two writes to one key has none. -/
def valueEdges : Option ObjectRef × Option ObjectRef :=
  match pair.entries with
  | [first, second] => (first.value.objectRef?, second.value.objectRef?)
  | [second] => (none, second.value.objectRef?)
  | _ => (none, none)

/-- Bytes of the new or of the old storages. -/
def bytes (array : RefPairGrowth (Option Value) → Nat) (hash : RefPairGrowth Bucket → Nat) : Nat :=
  (pair.arrayGrowth.elim 0 array) + (pair.hashGrowth.elim 0 hash)

/-- `commit_accounting`; if it fails, the rest of the pair is dropped by the caller. -/
def commitAccounting : BooksM PreparedRefPair :=
  if pair.bytes RefPairGrowth.newBytes RefPairGrowth.newBytes > usizeMax
      ∨ pair.bytes RefPairGrowth.oldBytes RefPairGrowth.oldBytes > usizeMax then do
    Prog.modify (·.dropRefPair pair)
    Prog.fail .arithmeticOverflow
  else do
    let arrayGrowth ← Prog.onError (RefPairGrowth.commit? pair.arrayGrowth)
      (Prog.modify (·.dropGrowth? pair.hashGrowth))
    let hashGrowth ← Prog.onError (RefPairGrowth.commit? pair.hashGrowth)
      (Prog.modify (·.dropGrowth? arrayGrowth))
    pure { pair with arrayGrowth := arrayGrowth, hashGrowth := hashGrowth }

/-- One field of the pair. -/
def applyEntry (t : Table) (entry : RefPairEntry) : Table :=
  match entry.slot with
  | .array index => { t with array := t.array.set index (some entry.value) }
  | .hashExisting index =>
    { t with hash := t.hash.modify index (Option.map fun e => (e.1, entry.value)) }
  | .hashNew index => { t with hash := t.hash.set index (some (.integer entry.key, entry.value)) }

/-- `PreparedRefPair::apply`, on the table. -/
def apply (t : Table) : Table :=
  let array := pair.arrayGrowth.elim t.array RefPairGrowth.next
  let hash := pair.hashGrowth.elim t.hash fun growth =>
    let live := t.hash.filter Bucket.isLive
    live ++ growth.next.drop live.length
  Table.bumpMutationVersion (pair.entries.foldl applyEntry { t with array := array, hash := hash })

/-- `PreparedRefPair::apply`, on the accounts. -/
def settle (t : Table) (account : TableAccount) (books : Books) : TableAccount × Books :=
  let (charges, books) := match pair.arrayGrowth.bind fun growth => growth.growth.charge with
    | some charge => books.replaceFirst account.charges charge
    | none => (account.charges, books)
  match pair.hashGrowth with
  | none => (⟨charges, account.keys⟩, books)
  | some growth =>
    let placed := t.hash.zipIdx.map fun entry => (entry.1, account.keyAt entry.2)
    let live := (placed.filter fun entry => Bucket.isLive entry.1).map Prod.snd
    let dead := (placed.filter fun entry => !Bucket.isLive entry.1).flatMap fun entry =>
      entry.2.toList
    let keys := live ++ List.replicate (growth.next.length - live.length) KeyCharges.none
    let books := books.dropCharges dead
    match growth.growth.charge with
    | some charge =>
      let (charges, books) := books.replaceSecond charges charge
      (⟨charges, keys⟩, books)
    | none => (⟨charges, keys⟩, books)

end PreparedRefPair

/-- `commit_prepared_ref_pair`, before the publication. -/
def commitPreparedPair (barrier : TicketedBarrier) (pair : PreparedRefPair) :
    BooksM (TicketedBarrier × PreparedRefPair) := do
  let barrier ← Prog.onError barrier.commitAccounting (Prog.modify (·.dropRefPair pair))
  let pair ← Prog.onError pair.commitAccounting
    (Prog.modify (·.dropCharge? barrier.rememberedAccounted))
  pure (barrier, pair)

/-- The publication of both fields. -/
def publishPair (table : ObjectRef) (index : Nat) (t : Table) (barrier : TicketedBarrier)
    (pair : PreparedRefPair) (st : AccountedVm) : AccountedVm :=
  let st := barrier.apply table st
  let settled := pair.settle t (st.accounts index) st.books
  { st with
    vm := st.vm.setPayload index (.table (pair.apply t))
    accounts := Function.update st.accounts index settled.1
    books := settled.2 }

/-- `raw_set_ref_pair`. -/
def rawSetRefPair [DefaultHasher] (s : Surroundings) (table : ObjectRef)
    (first second : Int64 × Value) : Prog AccountedVm VmError Unit := do
  let st ← Prog.get
  let t ← Prog.ofExcept (st.vm.table table)
  let id ← Prog.ofOption .staleObject table.identity
  if Table.foreignFunction st.vm first.2 || Table.foreignFunction st.vm second.2 then
    Prog.fail .wrongVm
  else do
    let pair ← liftBooks (prepareRefPair s t first second)
    let edges := pair.valueEdges
    let barrier ← liftBooks (Prog.onError
      (s.prepareBarrier st table (.tableValue, edges.1) (.tableValue, edges.2))
      (Prog.modify (·.dropRefPair pair)))
    let committed ← liftBooks (commitPreparedPair barrier pair)
    Prog.modify (publishPair table id.slot t committed.1 committed.2)

end RivetLua.Runtime.Allocation
