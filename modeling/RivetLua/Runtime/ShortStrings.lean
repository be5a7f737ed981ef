import Mathlib.Algebra.Ring.Nat
import RivetLua.Lib.OpenAddressing
import RivetLua.Runtime.Alloc

namespace RivetLua.Runtime

open OpenAddressing

/-!
# Runtime — interning short strings

Short byte strings are shared: an index with open addressing maps their hashes to the live object.

* `ShortStringIndex` — insertion, removal and growth;
* `StringVm` — the slots of the heap, as far as byte strings go, and the index;
* `findShortString`, `restoreShortStringGrowth`, … — the operations of the VM on both;
* `Action`, `StringVm.step` — runs; while an allocation collects, finalizers allocate, too.
-/

/-! ### The index -/

/-- The object of a bucket: slot and token of the reference. -/
structure StringRef where
  slot : Nat
  token : Nat
  deriving DecidableEq

/-- An occupied bucket. -/
structure IndexEntry where
  hash : UInt64
  object : StringRef
  deriving DecidableEq

/-- `ShortStringIndex`. -/
structure ShortStringIndex where
  buckets : List (Bucket IndexEntry)
  occupied : Nat
  deleted : Nat

namespace ShortStringIndex

/-- `ShortStringIndex::default`. -/
def default : ShortStringIndex := ⟨[], 0, 0⟩

/-- The buckets of a probe: `(hash as usize).wrapping_add(offset) % capacity`. -/
def positions (hash : UInt64) (capacity : Nat) : List Nat :=
  (List.range capacity).map fun offset => (hash.toNat + offset) % 2 ^ 64 % capacity

variable (index : ShortStringIndex)

/-- Put an entry into a bucket that is not occupied. -/
def fill (t : Nat) (entry : IndexEntry) : ShortStringIndex :=
  { buckets := index.buckets.set t (.occupied entry)
    occupied := index.occupied + 1
    deleted := if (bucket index.buckets t).isDeleted then index.deleted - 1 else index.deleted }

/-- `ShortStringIndex::insert`. -/
def insert (hash : UInt64) (object : StringRef) : Except VmError ShortStringIndex :=
  if index.buckets.length = 0 then .error .ledgerInvariant
  else match target index.buckets (positions hash index.buckets.length) none with
    | none => .error .ledgerInvariant
    | some t => .ok (index.fill t ⟨hash, object⟩)

/-- The bucket of an object. -/
def entryOf (hash : UInt64) (object : StringRef) : Except VmError (Option (Nat × IndexEntry)) :=
  search (fun entry => .ok (decide (entry = ⟨hash, object⟩))) index.buckets
    (positions hash index.buckets.length)

/-- `ShortStringIndex::remove`. -/
def remove (hash : UInt64) (object : StringRef) : ShortStringIndex :=
  match index.entryOf hash object with
  | .ok (some (i, _)) =>
    if index.occupied - 1 = 0 then default
    else ⟨index.buckets.set i .deleted, index.occupied - 1, index.deleted + 1⟩
  | _ => index

/-- The occupied buckets, in order. -/
def entries : List IndexEntry :=
  index.buckets.filterMap fun
    | .occupied entry => some entry
    | _ => none

/-- A table of empty buckets. -/
def ofCapacity (capacity : Nat) : ShortStringIndex := ⟨List.replicate capacity .empty, 0, 0⟩

/-- The capacity that `reserve_slot` moves to. -/
def grownCapacity : Nat :=
  if index.buckets.length = 0 then 16
  else if index.occupied + 1 ≤ index.buckets.length / 2 then index.buckets.length
  else index.buckets.length * 2

/-- `ShortStringIndex::reserve_slot`: the table before its growth, and the table.  `reserve` is the
    answer of the ledger. -/
def reserveSlot (reserve : Except VmError Unit) :
    Except VmError (Option ShortStringIndex × ShortStringIndex) :=
  if index.buckets.length ≠ 0
      ∧ index.occupied + index.deleted + 1 ≤ index.buckets.length / 2 then
    .ok (none, index)
  else if usizeMax < index.grownCapacity then .error .arithmeticOverflow
  else do
    reserve
    let next ← index.entries.foldlM (fun next entry => next.insert entry.hash entry.object)
      (ofCapacity index.grownCapacity)
    .ok (some index, next)

end ShortStringIndex

/-! ### Byte strings on the heap -/

/-- `MAX_SHORT_STRING_LEN`. -/
def maxShortStringLen : Nat := 40

/-- A short string. -/
structure ShortString where
  bytes : List UInt8
  short : bytes.length ≤ maxShortStringLen

/-- An object in a slot; `bytes` if it is a byte string.  `interned` is not part of the machine: the
    index has had an entry for the object. -/
structure StringObject where
  token : Nat
  bytes : Option (List UInt8)
  interned : Bool
  deriving DecidableEq

/-- An allocation whose object is in its slot while a collection runs; `string` for a short string,
    `previous` is the table before its growth. -/
structure Allocation where
  string : Option ShortString
  previous : Option ShortStringIndex
  previousSlots : Nat
  object : StringRef
  appended : Bool

/-- The slots, the index, and the allocation that is collecting.  Finalizers do not collect when
    they allocate. -/
structure StringVm where
  slots : List (Option StringObject)
  nextToken : Nat
  index : ShortStringIndex
  outer : Option Allocation


namespace StringVm

variable (hash : List UInt8 → UInt64) (vm : StringVm)

/-- The object a reference stands for. -/
def object? (ref : StringRef) : Option StringObject :=
  (vm.slots[ref.slot]?.join).filter fun o => o.token == ref.token

/-- `Vm::with_byte_string`, reading the bytes. -/
def byteString (ref : StringRef) : Except VmError (List UInt8) :=
  match vm.object? ref with
  | none => .error .staleObject
  | some o => match o.bytes with
    | none => .error .wrongObjectType
    | some bytes => .ok bytes

/-- `Vm::find_short_string`. -/
def findShortString (bytes : List UInt8) (h : UInt64) : Except VmError (Option StringRef) := do
  let check := fun (entry : IndexEntry) =>
    if entry.hash = h then do
      let stored ← vm.byteString entry.object
      .ok (decide (stored = bytes))
    else .ok false
  let found ← search check vm.index.buckets
    (ShortStringIndex.positions h vm.index.buckets.length)
  .ok (found.map fun p => p.2.object)

/-- Move one entry to another table, after a check. -/
def moveEntry (next : ShortStringIndex) (entry : IndexEntry) : Except VmError ShortStringIndex := do
  let bytes ← vm.byteString entry.object
  if bytes.length ≤ maxShortStringLen ∧ hash bytes = entry.hash then
    next.insert entry.hash entry.object
  else .error .ledgerInvariant

/-- `Vm::restore_short_string_growth`. -/
def restoreShortStringGrowth (previous : Option ShortStringIndex) : Except VmError StringVm :=
  match previous with
  | none => .ok vm
  | some previous =>
    if vm.index.occupied = 0 then .ok { vm with index := .default }
    else if previous.buckets.length = 0 ∨ previous.buckets.length / 2 < vm.index.occupied then .ok vm
    else do
      let index ← vm.index.entries.foldlM (vm.moveEntry hash) (.ofCapacity previous.buckets.length)
      .ok { vm with index := index }

/-- Put a new object into a free slot, or into a new one. -/
def publish (slot : Nat) (bytes : Option (List UInt8)) : Option (StringRef × StringVm) :=
  let object : StringObject := ⟨vm.nextToken, bytes, false⟩
  let ref : StringRef := ⟨slot, vm.nextToken⟩
  if slot = vm.slots.length then
    some (ref, { vm with slots := vm.slots ++ [some object], nextToken := vm.nextToken + 1 })
  else if vm.slots[slot]? = some none then
    some (ref, { vm with slots := vm.slots.set slot (some object), nextToken := vm.nextToken + 1 })
  else none

/-- `Vm::reclaim`. -/
def reclaim (ref : StringRef) : Except VmError StringVm :=
  match vm.object? ref with
  | none => .error .staleObject
  | some o => .ok
    { vm with
      slots := vm.slots.set ref.slot none
      index := match o.bytes with
        | some bytes =>
          if bytes.length ≤ maxShortStringLen then vm.index.remove (hash bytes) ref else vm.index
        | none => vm.index }

/-- `Vm::rollback_new_object`: an appended slot is dropped as the last one. -/
def rollbackNewObject (slot : Nat) (appended : Bool) : StringVm :=
  { vm with slots := if appended then vm.slots.dropLast else vm.slots.set slot none }

/-- `Vm::rollback_unpublished_created_object`. -/
def rollbackUnpublishedCreatedObject (ref : StringRef) (previousSlots : Nat) :
    Except VmError StringVm := do
  let _ ← vm.byteString ref
  let appended := decide (ref.slot = previousSlots ∧ previousSlots + 1 = vm.slots.length)
  let vm ← vm.reclaim hash ref
  .ok (if appended then { vm with slots := vm.slots.dropLast } else vm)

/-- The start of `Vm::allocate_byte_string_with_status` for a short string: a hit, or room for one
    more entry. -/
def beginAllocation (string : ShortString) (reserve : Except VmError Unit) :
    Except VmError (StringRef ⊕ (Option ShortStringIndex × StringVm)) := do
  match ← vm.findShortString string.bytes (hash string.bytes) with
  | some object => .ok (.inl object)
  | none =>
    let (previous, index) ← vm.index.reserveSlot reserve
    .ok (.inr (previous, { vm with index := index }))

/-- Undo an allocation: `rollback_unpublished_created_object`, `restore_short_string_growth`. -/
def undo (ref : StringRef) (previousSlots : Nat) (previous : Option ShortStringIndex) :
    Except VmError StringVm := do
  let vm ← vm.rollbackUnpublishedCreatedObject hash ref previousSlots
  vm.restoreShortStringGrowth hash previous

/-- The object has an entry from now on. -/
def intern (ref : StringRef) (index : ShortStringIndex) : StringVm :=
  { vm with
    slots := vm.slots.set ref.slot
      ((vm.slots[ref.slot]?.join).map fun o => { o with interned := true })
    index := index }

/-- The end of `Vm::allocate_byte_string_with_status`: index the object, reserving again if the
    collection has emptied the index. -/
def indexObject (string : ShortString) (ref : StringRef) (previousSlots : Nat)
    (previous : Option ShortStringIndex) (reserve : Except VmError Unit) :
    Except VmError StringVm :=
  let reserved : Except VmError (Option ShortStringIndex × ShortStringIndex) :=
    if vm.index.buckets.isEmpty then vm.index.reserveSlot reserve else .ok (none, vm.index)
  match reserved with
  | .error _ => vm.undo hash ref previousSlots previous
  | .ok (grown, index) =>
    match index.insert (hash string.bytes) ref with
    | .ok index => .ok (vm.intern ref index)
    | .error _ => { vm with index := index }.undo hash ref previousSlots (previous.or grown)

/-! ### Runs -/

/-- What can happen. -/
inductive Action where
  /-- Intern a string without a collection in between. -/
  | allocate (string : ShortString) (slot : Nat) (reserve second : Except VmError Unit)
  /-- … which is refused before there is an object. -/
  | refuse (string : ShortString) (reserve : Except VmError Unit)
  /-- Start to intern a string, up to the collection. -/
  | start (string : ShortString) (slot : Nat) (reserve : Except VmError Unit)
  /-- The collection has succeeded. -/
  | finish (second : Except VmError Unit)
  /-- The collection has failed. -/
  | abort
  /-- Make an object that is not interned. -/
  | other (slot : Nat) (bytes : Option (List UInt8))
  /-- … with a collection. -/
  | startOther (slot : Nat) (bytes : Option (List UInt8))
  | reclaim (ref : StringRef)
  /-- Undo an allocation that could not be published. -/
  | undo (ref : StringRef) (previousSlots : Nat) (previous : Option ShortStringIndex)

/-- One step. -/
def step : Action → Option StringVm
  | .allocate string slot reserve second =>
    match vm.beginAllocation hash string reserve with
    | .ok (.inr (previous, grown)) => do
      let (ref, published) ← grown.publish slot (some string.bytes)
      (published.indexObject hash string ref vm.slots.length previous second).toOption
    | _ => none
  | .refuse string reserve =>
    match vm.beginAllocation hash string reserve with
    | .ok (.inr (previous, grown)) => (grown.restoreShortStringGrowth hash previous).toOption
    | _ => none
  | .start string slot reserve =>
    match vm.outer, vm.beginAllocation hash string reserve with
    | none, .ok (.inr (previous, grown)) => do
      let (ref, published) ← grown.publish slot (some string.bytes)
      some { published with
        outer := some ⟨some string, previous, vm.slots.length, ref, slot == vm.slots.length⟩ }
    | _, _ => none
  | .finish second => do
    let allocation ← vm.outer
    let vm := { vm with outer := none }
    match allocation.string with
    | none => some vm
    | some string =>
      (vm.indexObject hash string allocation.object allocation.previousSlots allocation.previous
        second).toOption
  | .abort => do
    let allocation ← vm.outer
    let vm := { vm with outer := none }.rollbackNewObject allocation.object.slot allocation.appended
    (vm.restoreShortStringGrowth hash allocation.previous).toOption
  | .other slot bytes => (vm.publish slot bytes).map Prod.snd
  | .startOther slot bytes =>
    match vm.outer with
    | some _ => none
    | none => do
      let (ref, published) ← vm.publish slot bytes
      some { published with
        outer := some ⟨none, none, vm.slots.length, ref, slot == vm.slots.length⟩ }
  | .reclaim ref => (vm.reclaim hash ref).toOption
  | .undo ref previousSlots previous => (vm.undo hash ref previousSlots previous).toOption

end StringVm

end RivetLua.Runtime
