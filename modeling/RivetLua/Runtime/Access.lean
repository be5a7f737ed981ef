import RivetLua.Runtime.Heap

namespace RivetLua.Runtime

open RivetLua.Core RivetLua.Gc StateProg

/-!
# Runtime — raw access to tables

* `canonicalKey` — from a Lua value to a storable key: nil and NaN are refused, integral
  floats in range become integers, strings carry their bytes;
* `rawEqual` — Lua's primitive equality;
* `Table.rawGet`, `Table.rawSet` — read and write one field of a stored table;
* `Table.nextRaw` — the traversal primitive: it locates the previous key by value, first in
  the array part, then in the hash part, and continues behind it.

All of them only read the heap, so the VM is a plain argument; `RivetLua.Runtime.Write`
wraps the write with the collector's barrier.
-/

/-- Errors of `next`. -/
inductive RuntimeError where
  | heap (e : VmError)
  | invalidNextKey
  deriving DecidableEq, Repr

/-- Longest string key stored inline. -/
def inlineKeyLength : Nat := 8

/-- The storable key of a value, absent for nil and NaN.  The key of a long string reserves
    its own storage. -/
def canonicalKey (vm : Vm) (value : Value) : LedgerM (Option CanonicalKey) :=
  match value with
  | .nil => pure none
  | .integer i => pure (some (.integer i))
  | .boolean b => pure (some (.boolean b))
  | .lightUserdata a => pure (some (.lightUserdata a))
  | .cFunction id => if id.vm ≠ vm.id then Prog.fail .wrongVm else pure (some (.cFunction id))
  | .float x =>
    if x.isNan then pure none
    else
      match x.toI64? with
      | some i => pure (some (.integer i))
      | none => pure (some (.float x))
  | .object source => do
    let kind ← Prog.ofExcept (vm.objectKind source)
    if kind = .byteString then
      let (bytes, external) ← Prog.ofExcept (vm.byteString source)
      if bytes.length ≤ inlineKeyLength then pure (some (.shortString source bytes))
      else
        reserveVec bytes.length 1 .stringBytesReserve
        reserveVec 1 bucketSize .tableKeyReserve
        pure (some (.byteString source bytes external))
    else
      let id ← Prog.ofOption .staleObject source.identity
      pure (some (.object source id))

/-- Check that a value may be compared in this VM. -/
def checkComparable (vm : Vm) : Value → Except VmError Unit
  | .object o => (vm.objectKind o).map fun _ => ()
  | .cFunction id => if id.vm ≠ vm.id then .error .wrongVm else .ok ()
  | _ => .ok ()

/-- Equality of values that are not two strings: numbers by value, the rest structurally. -/
def primitiveEqual (left right : Value) : Bool :=
  match left.number?, right.number? with
  | some a, some b => equal a b
  | _, _ => left.eq right

/-- Lua's primitive equality: strings by bytes. -/
def rawEqual (vm : Vm) (left right : Value) : Except VmError Bool :=
  match checkComparable vm left, checkComparable vm right with
  | .error e, _ => .error e
  | .ok _, .error e => .error e
  | .ok _, .ok _ =>
    match left, right with
    | .object a, .object b =>
      match vm.byteString a, vm.byteString b with
      | .ok (x, _), .ok (y, _) => .ok (decide (x = y))
      | _, _ => .ok (primitiveEqual left right)
    | _, _ => .ok (primitiveEqual left right)

/-- Does a stored key equal the key a traversal stands on? -/
def CanonicalKey.matchesPrevious (vm : Vm) (key : CanonicalKey) (previous : Value) :
    Except VmError Bool :=
  match key.stringBytes with
  | some bytes =>
    match previous with
    | .object o =>
      match vm.objectKind o with
      | .error e => .error e
      | .ok kind =>
        if kind = .byteString then (vm.byteString o).map fun x => decide (x.1 = bytes)
        else .ok false
    | _ => .ok false
  | none =>
    match key, previous with
    | .object _ id, .object o => .ok (decide (o.identity = some id))
    | .object _ _, _ => .ok false
    | _, _ => rawEqual vm key.asValue previous

namespace Table

variable [DefaultHasher]

/-- The raw read of a Lua value. -/
def rawGet (vm : Vm) (t : Table) (key : Value) : LedgerM Value := do
  match ← canonicalKey vm key with
  | none => pure .nil
  | some key => pure (t.get key)

/-- A C function may only be stored in a table of its own VM. -/
def foreignFunction (vm : Vm) : Value → Bool
  | .cFunction id => decide (id.vm ≠ vm.id)
  | _ => false

/-- The mutation a raw write of a Lua value prepares. -/
def prepareRawSet (t : Table) (vm : Vm) (key value : Value) : LedgerM PreparedTableMutation :=
  if foreignFunction vm value then Prog.fail .wrongVm
  else if key = .nil then Prog.fail .nilTableKey
  else do
    match ← canonicalKey vm key with
    | none => Prog.fail .nanTableKey
    | some key => t.prepareSet key value

/-- The raw write of a Lua value. -/
def rawSet (vm : Vm) (t : Table) (key value : Value) : LedgerM Table := do
  let mutation ← t.prepareRawSet vm key value
  pure (mutation.apply t)

/-- The key of an array slot: `i64::try_from(index)` plus one, both checked. -/
def arrayKey (index : Nat) : Except RuntimeError Int64 :=
  if index + 1 < 2 ^ 63 then .ok (Int64.ofNat (index + 1))
  else .error (.heap .arithmeticOverflow)

/-- Raise a heap error to a runtime error. -/
def heapError {α : Type} : Except VmError α → Except RuntimeError α
  | .ok a => .ok a
  | .error e => .error (.heap e)

/-- Search the array part for the previous key: the slot and whether it still has a value. -/
def findPreviousArray (vm : Vm) (previous : Value) :
    List (Option Value) → Nat → Except RuntimeError (Option (Nat × Bool))
  | [], _ => .ok none
  | slot :: rest, index => do
    let number ← arrayKey index
    if ← heapError (rawEqual vm (.integer number) previous) then .ok (some (index, slot.isSome))
    else findPreviousArray vm previous rest (index + 1)

/-- Search the hash part for the previous key, dead entries included. -/
def findPreviousHash (vm : Vm) (previous : Value) :
    List Bucket → Nat → Except RuntimeError (Option Nat)
  | [], _ => .ok none
  | none :: rest, index => findPreviousHash vm previous rest (index + 1)
  | some (key, _) :: rest, index => do
    if ← heapError (key.matchesPrevious vm previous) then .ok (some index)
    else findPreviousHash vm previous rest (index + 1)

/-- Where a traversal resumes: first array index and first hash index to look at. -/
def resumeAt (vm : Vm) (t : Table) (previous : Value) : Except RuntimeError (Nat × Nat) :=
  if previous = .nil then .ok (0, 0)
  else do
    match ← findPreviousArray vm previous t.array 0 with
    | some (index, true) => .ok (index + 1, 0)
    | inArray =>
      match ← findPreviousHash vm previous t.hash 0 with
      | some index => .ok (t.array.length, index + 1)
      | none =>
        match inArray with
        | some (index, _) => .ok (index + 1, 0)
        | none => .error .invalidNextKey

/-- The first field of the array part from an index on. -/
def firstArray : List (Option Value) → Nat → Except RuntimeError (Option (Value × Value))
  | [], _ => .ok none
  | some value :: _, index => do
    let number ← arrayKey index
    .ok (some (.integer number, value))
  | none :: rest, index => firstArray rest (index + 1)

/-- The first live entry of the hash part. -/
def firstHash : List Bucket → Option (Value × Value)
  | [] => none
  | some (key, value) :: rest =>
    if value = .nil then firstHash rest else some (key.asValue, value)
  | none :: rest => firstHash rest

omit [DefaultHasher] in
/-- Lua's `next`: the field behind `previous`, or nothing at the end. -/
def nextRaw (vm : Vm) (t : Table) (previous : Value) :
    Except RuntimeError (Option (Value × Value)) := do
  let (arrayStart, hashStart) ← resumeAt vm t previous
  match ← firstArray (t.array.drop arrayStart) arrayStart with
  | some field => .ok (some field)
  | none => .ok (firstHash (t.hash.drop hashStart))

end Table

end RivetLua.Runtime
