import RivetLua.Core.Value
import RivetLua.Runtime.Alloc

namespace RivetLua.Runtime

open RivetLua.Core StateProg

/-!
# Runtime — tables: storage, lookup and the prepared mutation

A table keeps an array part (`array[i]` holds the field with key `i + 1`) and a hash part
of buckets.  A bucket is empty, live (its value is not nil) or *dead*: a deleted field keeps
its key, with the value nil, so that a traversal may resume from it.

* `CanonicalKey` — a storable key; integral floats have already become integers;
* `Table.get` — the raw read;
* `Table.prepareSet` — chooses one of the seven mutations without touching the table;
* `PreparedTableMutation.apply` — publishes it.

The hash function only chooses the first bucket of a probe; it is the parameter
`DefaultHasher` of everything below.
-/

/-- Which entries of a table are weak. -/
inductive WeakMode where
  | strong | keys | values | all
  deriving DecidableEq, Repr

/-- A storable key.  `source` is the object the key was made from. -/
inductive CanonicalKey where
  | integer (i : Int64)
  | float (x : F64)
  | boolean (b : Bool)
  | lightUserdata (address : Nat)
  | cFunction (id : HostFunctionId)
  /-- At most eight bytes, stored inline. -/
  | shortString (source : ObjectRef) (bytes : List UInt8)
  /-- A longer string; `external` marks bytes shared with a host owner. -/
  | byteString (source : ObjectRef) (bytes : List UInt8) (external : Bool)
  | deadShortString (source : ObjectRef) (bytes : List UInt8)
  | object (source : ObjectRef) (id : ObjectId)
  deriving DecidableEq, Repr

/-- Class of a key, used by the tracer. -/
inductive CanonicalKeyClass where
  | integer | float | boolean | lightUserdata | cFunction | byteString | object
  deriving DecidableEq, Repr

namespace CanonicalKey

/-- The bytes of a string key. -/
def stringBytes : CanonicalKey → Option (List UInt8)
  | .shortString _ bytes => some bytes
  | .byteString _ bytes _ => some bytes
  | .deadShortString _ bytes => some bytes
  | _ => none

/-- `PartialEq`: strings by bytes, objects by identity, floats as numbers. -/
def eq (a b : CanonicalKey) : Bool :=
  match a.stringBytes, b.stringBytes with
  | some left, some right => decide (left = right)
  | _, _ =>
    match a, b with
    | .integer i, .integer j => decide (i = j)
    | .float x, .float y => x.eq y
    | .boolean x, .boolean y => decide (x = y)
    | .lightUserdata x, .lightUserdata y => decide (x = y)
    | .cFunction x, .cFunction y => decide (x = y)
    | .object _ x, .object _ y => decide (x = y)
    | _, _ => false

/-- The class of a key. -/
def cls : CanonicalKey → CanonicalKeyClass
  | .integer _ => .integer
  | .float _ => .float
  | .boolean _ => .boolean
  | .lightUserdata _ => .lightUserdata
  | .cFunction _ => .cFunction
  | .shortString _ _ | .byteString _ _ _ | .deadShortString _ _ => .byteString
  | .object _ _ => .object

/-- The heap object a key refers to. -/
def sourceObject : CanonicalKey → Option ObjectRef
  | .shortString source _ => some source
  | .byteString source _ _ => some source
  | .deadShortString source _ => some source
  | .object source _ => some source
  | _ => none

/-- The array index of a positive integer key. -/
def arrayIndex : CanonicalKey → Option Nat
  | .integer i => if 0 < i.toInt then some (i.toInt.toNat - 1) else none
  | _ => none

/-- The Lua value of a key. -/
def asValue : CanonicalKey → Value
  | .integer i => .integer i
  | .float x => .float x
  | .boolean b => .boolean b
  | .lightUserdata a => .lightUserdata a
  | .cFunction id => .cFunction id
  | .shortString source _ => .object source
  | .byteString source _ _ => .object source
  | .deadShortString source _ => .object source
  | .object source _ => .object source

/-- Turn a key into the key of a deleted field.  Bytes owned by the host are copied, which
    may fail. -/
def makeDead : CanonicalKey → LedgerM CanonicalKey
  | .shortString source bytes => pure (.deadShortString source bytes)
  | .byteString source bytes true => do
    reserveVec bytes.length 1 .stringBytesReserve
    pure (.byteString source bytes false)
  | key => pure key

end CanonicalKey

/-- The process-wide hasher: seed and key to a hash. -/
class DefaultHasher where
  finish : Nat → CanonicalKey → Nat

/-- A bucket. -/
abbrev Bucket := Option (CanonicalKey × Value)

/-- A table. -/
structure Table where
  metatable : Option ObjectRef
  weakMode : WeakMode
  hashSeed : Nat
  mutationVersion : Nat
  array : List (Option Value)
  hash : List Bucket

/-- `size_of::<Option<Value>>()`. -/
def optionValueSize : Nat := 40

/-- `size_of::<Option<(CanonicalKey, Value)>>()`. -/
def bucketSize : Nat := 104

/-- A bucket whose value is not nil. -/
def Bucket.isLive : Bucket → Bool
  | some (_, value) => decide (value ≠ .nil)
  | none => false

namespace Table

/-- An empty table with the given capacities. -/
def tryNew (arrayCapacity hashCapacity hashSeed : Nat) : LedgerM Table := do
  reserveVec arrayCapacity optionValueSize .tableArrayReserve
  reserveVec hashCapacity bucketSize .tableHashReserve
  pure {
    metatable := none
    weakMode := .strong
    hashSeed := hashSeed
    mutationVersion := 0
    array := List.replicate arrayCapacity none
    hash := List.replicate hashCapacity none }

/-- `saturating_add(1)` on the version counter. -/
def bumpMutationVersion (t : Table) : Table :=
  { t with mutationVersion := min (t.mutationVersion + 1) (2 ^ 64 - 1) }

/-- The content of the bucket at an index. -/
def entry (t : Table) (index : Nat) : Bucket := (t.hash[index]?).join

/-- The content of the array slot at an index. -/
def slot (t : Table) (index : Nat) : Option Value := (t.array[index]?).join

section Lookup

variable [DefaultHasher]

/-- First bucket of a key. -/
def bucket (t : Table) (key : CanonicalKey) (count : Nat) : Nat :=
  DefaultHasher.finish t.hashSeed key % count

/-- The `step`-th bucket of a probe that wraps around. -/
def probe (start step count : Nat) : Nat :=
  if step < count - start then start + step else step - (count - start)

/-- The buckets of a probe, in order. -/
def probes (start count : Nat) : List Nat :=
  (List.range count).map fun step => probe start step count

/-- The bucket that stores a key, dead or alive. -/
def findAnyHash (t : Table) (key : CanonicalKey) : Option Nat :=
  let count := t.hash.length
  if count = 0 then none
  else
    (probes (t.bucket key count) count).find? fun index =>
      match t.entry index with
      | some (stored, _) => stored.eq key
      | none => false

/-- The bucket that stores a live key. -/
def findHash (t : Table) (key : CanonicalKey) : Option Nat :=
  (t.findAnyHash key).filter fun index => (t.entry index).isLive

/-- Number of live buckets. -/
def liveHashCount (t : Table) : Nat := t.hash.countP Bucket.isLive

/-- The first empty bucket of a probe. -/
def emptyBucket (t : Table) (buckets : List Bucket) (key : CanonicalKey) : LedgerM Nat :=
  let count := buckets.length
  if count = 0 then Prog.fail .ledgerInvariant
  else
    match (probes (t.bucket key count) count).find? fun index => (buckets[index]?).join.isNone with
    | some index => pure index
    | none => Prog.fail .ledgerInvariant

/-- The raw read. -/
def get (t : Table) (key : CanonicalKey) : Value :=
  let inHash : Value :=
    match t.findHash key with
    | some index => ((t.entry index).map Prod.snd).getD .nil
    | none => .nil
  match key.arrayIndex with
  | some index =>
    match t.slot index with
    | some value => value
    | none => inHash
  | none => inHash

end Lookup

end Table

/-! ### Prepared mutations -/

/-- A mutation that has been prepared without touching the table. -/
inductive PreparedTableMutation where
  | noop
  | arraySlot (index : Nat) (value : Value)
  | hashSlot (index : Nat) (value : Value) (deadKey : Option CanonicalKey)
  | hashReplace (index : Nat) (key : CanonicalKey) (value : Value)
  | hashInsert (index : Nat) (key : CanonicalKey) (value : Value)
  | growArray (next : List (Option Value)) (value : Value)
  | growHash (next : List Bucket) (existingCount : Nat) (key : CanonicalKey) (value : Value)

namespace Table

variable [DefaultHasher]

/-- The part of `prepareSet` that decides between inserting into an empty bucket and
    growing the hash part. -/
def prepareInsert (t : Table) (key : CanonicalKey) (value : Value) :
    LedgerM PreparedTableMutation := do
  let count := t.liveHashCount
  let occupied := t.hash.countP Option.isSome
  let capacity := t.hash.length
  let needed := count + 1
  if capacity = 0 ∨ occupied ≥ capacity ∨ needed > capacity - capacity / 4 then
    let newCapacity := max (capacity * 2) 1
    if needed > newCapacity then
      Prog.fail .ledgerInvariant
    else
      let _ ← checkedBytes newCapacity bucketSize
      reserveVec newCapacity bucketSize .tableHashGrow
      checkpoint .tableRehash
      checkpoint .tableInsert
      pure (.growHash (List.replicate newCapacity none) count key value)
  else
    checkpoint .tableInsert
    let index ← t.emptyBucket t.hash key
    pure (.hashInsert index key value)

/-- The part of `prepareSet` for a field that is absent and gets a value: the array part is
    tried first. -/
def prepareAbsent (t : Table) (key : CanonicalKey) (value : Value) :
    LedgerM PreparedTableMutation :=
  match key.arrayIndex with
  | some index =>
    if index < t.array.length then do
      checkpoint .tableInsert
      pure (.arraySlot index value)
    else if index = t.array.length then do
      let oldCapacity := t.array.length
      let newCapacity := max (oldCapacity * 2) 4
      let _ ← checkedBytes newCapacity optionValueSize
      reserveVec newCapacity optionValueSize .tableArrayGrow
      checkpoint .tableInsert
      let next := (t.array ++ List.replicate (newCapacity - oldCapacity) none).set index (some value)
      pure (.growArray next value)
    else t.prepareInsert key value
  | none => t.prepareInsert key value

/-- The raw write, prepared: seven cases that depend on where the key is stored now. -/
def prepareSet (t : Table) (key : CanonicalKey) (value : Value) :
    LedgerM PreparedTableMutation :=
  match key.arrayIndex.filter fun index => (t.slot index).isSome with
  | some index => pure (.arraySlot index value)
  | none =>
    match t.findHash key with
    | some index =>
      if value = .nil then do
        let dead ← key.makeDead
        pure (.hashSlot index value (some dead))
      else pure (.hashSlot index value none)
    | none =>
      if value = .nil then pure .noop
      else
        match t.findAnyHash key with
        | some index =>
          -- a dead entry of the key is revived in place while the load allows it
          if t.liveHashCount + 1 ≤ t.hash.length - t.hash.length / 4 then do
            checkpoint .tableInsert
            pure (.hashReplace index key value)
          else t.prepareAbsent key value
        | none => t.prepareAbsent key value

end Table

namespace PreparedTableMutation

/-- The key and value edges a mutation adds to the table. -/
def newEdges : PreparedTableMutation → Option ObjectRef × Option ObjectRef
  | .noop => (none, none)
  | .arraySlot _ value | .hashSlot _ value _ | .growArray _ value => (none, value.objectRef?)
  | .hashReplace _ key value | .hashInsert _ key value | .growHash _ _ key value =>
    (key.sourceObject, value.objectRef?)

/-- A value as stored in an array slot: nil empties the slot. -/
def slotOf (value : Value) : Option Value := if value = .nil then none else some value

/-- Move the live entries to the front of the grown hash part, in order, and put the new
    entry right behind them. -/
def repack (old next : List Bucket) (existingCount : Nat) (key : CanonicalKey) (value : Value) :
    List Bucket :=
  let live := old.filter Bucket.isLive
  (live ++ next.drop live.length).set existingCount (some (key, value))

/-- Publish a prepared mutation. -/
def apply (m : PreparedTableMutation) (t : Table) : Table :=
  match m with
  | .noop => t
  | .arraySlot index value =>
    Table.bumpMutationVersion { t with array := t.array.set index (slotOf value) }
  | .hashSlot index value deadKey =>
    if value = .nil then
      Table.bumpMutationVersion
        { t with hash := t.hash.set index (deadKey.map fun key => (key, .nil)) }
    else
      Table.bumpMutationVersion
        { t with hash := t.hash.modify index (Option.map fun e => (e.1, value)) }
  | .hashReplace index key value | .hashInsert index key value =>
    Table.bumpMutationVersion { t with hash := t.hash.set index (some (key, value)) }
  | .growArray next _ => Table.bumpMutationVersion { t with array := next }
  | .growHash next existingCount key value =>
    Table.bumpMutationVersion { t with hash := repack t.hash next existingCount key value }

end PreparedTableMutation

end RivetLua.Runtime
