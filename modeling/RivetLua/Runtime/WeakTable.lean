import RivetLua.Runtime.Heap

namespace RivetLua.Runtime

open RivetLua.Core RivetLua.Gc StateProg

/-!
# Runtime — what the collector sees of an object, and the passes over weak tables

* `HeapObject.gcVisits` — the references the tracer visits, with the weak mode of a table
  taken into account;
* `Table.ephemeronPairs`, `Table.liveWeakStringKeys` — what the two further marking passes
  look at;
* `Table.clearDeadWeakPairs` — removes the dead entries of a weak table, in place: an error
  keeps what was cleared before it.
-/

/-- A visit of the tracer: a reference is marked always, or only when it is a string. -/
inductive GcVisit where
  | always (object : ObjectRef)
  | ifString (object : ObjectRef)
  deriving DecidableEq, Repr

/-- The object a visit is about. -/
def GcVisit.object : GcVisit → ObjectRef
  | .always object => object
  | .ifString object => object

/-- Keys that need no scan of their own to be alive. -/
def CanonicalKeyClass.liveWithoutScan : CanonicalKeyClass → Bool
  | .integer | .float | .boolean | .lightUserdata | .byteString => true
  | .cFunction | .object => false

/-- The object behind an object key; string keys have none here. -/
def CanonicalKey.objectSource : CanonicalKey → Option ObjectRef
  | .object source _ => some source
  | _ => none

/-- Weak keys: modes `k` and `kv`. -/
def WeakMode.weakKeys : WeakMode → Bool
  | .keys | .all => true
  | .strong | .values => false

/-- Weak values: modes `v` and `kv`. -/
def WeakMode.weakValues : WeakMode → Bool
  | .values | .all => true
  | .strong | .keys => false

/-- `Table::set_weak_mode`: a change counts as a mutation. -/
def Table.setWeakMode (t : Table) (mode : WeakMode) : Table :=
  { (if t.weakMode = mode then t else t.bumpMutationVersion) with weakMode := mode }

/-- Visits of one bucket of a weak table. -/
def Bucket.gcVisits (mode : WeakMode) : Bucket → List GcVisit
  | none => []
  | some (key, value) =>
    if value = .nil then []
    else
      (if mode = .values ∨ (mode = .keys ∧ key.cls = .byteString) then
        key.sourceObject.toList.map .always
      else []) ++
      match value.objectRef?, mode with
      | none, _ => []
      | some object, .keys => if key.cls.liveWithoutScan then [.always object] else []
      | some object, .values | some object, .all => [.ifString object]
      | some object, .strong => [.always object]

namespace Table

/-- The visits of a table. -/
def gcVisits (t : Table) : List GcVisit :=
  if t.weakMode = .strong then t.childRefs.map .always
  else
    t.metatable.toList.map .always ++
    (valueRefs (t.array.filterMap id)).map (if t.weakMode = .keys then .always else .ifString) ++
    t.hash.flatMap (Bucket.gcVisits t.weakMode)

/-- The pairs of an ephemeron table: the object key, if any, and the object value. -/
def ephemeronPairs (t : Table) : List (Option ObjectRef × ObjectRef) :=
  if t.weakMode = .keys then
    t.hash.filterMap fun bucket =>
      bucket.bind fun (key, value) => value.objectRef?.map fun object => (key.objectSource, object)
  else []

/-- The string keys of the live entries of a `kv` table. -/
def liveWeakStringKeys (t : Table) : List ObjectRef :=
  if t.weakMode = .all then
    t.hash.filterMap fun bucket =>
      bucket.bind fun (key, value) =>
        if value ≠ .nil ∧ key.cls = .byteString then key.sourceObject else none
  else []

end Table

/-- The visits of an object. -/
def HeapObject.gcVisits (o : HeapObject) : List GcVisit :=
  match o.payload with
  | .table t => t.gcVisits ++ o.children.map .always
  | _ => o.childRefs.map .always

/-! ### Clearing -/

section Clear

variable (isDead isLiveKey : ObjectRef → Except VmError Bool) (clearValues clearKeys : Bool)

/-- Clear the dead values of an array part; the number counts the cleared slots. -/
def clearDeadArray : List (Option Value) → Except VmError Unit × List (Option Value) × Nat
  | [] => (.ok (), [], 0)
  | entry :: rest =>
    match entry.bind Value.objectRef? with
    | none =>
      match clearDeadArray rest with
      | (r, rest, cleared) => (r, entry :: rest, cleared)
    | some object =>
      match isDead object with
      | .error e => (.error e, entry :: rest, 0)
      | .ok dead =>
        match clearDeadArray rest with
        | (r, rest, cleared) =>
          if dead then (r, none :: rest, cleared + 1) else (r, entry :: rest, cleared)

/-- A fallible test that is made under a condition only. -/
def testIf (condition : Bool) (object : Option ObjectRef)
    (test : ObjectRef → Except VmError Bool) : Except VmError Bool :=
  match condition, object with
  | true, some object => test object
  | _, _ => .ok false

/-- What becomes of a bucket; `none` when it stays. -/
def clearDeadBucket (mode : WeakMode) : Bucket → LedgerM (Option Bucket)
  | none => pure none
  | some (key, value) =>
    if clearValues ∧ value = .nil then pure (some none)
    else do
      let deadKey ← Prog.ofExcept (testIf (clearKeys && mode.weakKeys) key.objectSource isDead)
      let deadValue ←
        Prog.ofExcept (testIf (clearValues && mode.weakValues) value.objectRef? isDead)
      if deadKey || deadValue then
        let keyIsDead ← Prog.ofExcept
          (testIf (!deadKey && deadValue && decide (mode = .all)) key.sourceObject
            fun source => (isLiveKey source).map (! ·))
        if deadKey || keyIsDead then pure (some none)
        else do
          let key ← key.makeDead
          pure (some (some (key, .nil)))
      else pure none

/-- Clear the buckets of a hash part; the number counts the changed buckets. -/
def clearDeadBuckets (mode : WeakMode) : List Bucket → Ledger →
    Except VmError Unit × List Bucket × Nat × Ledger
  | [], l => (.ok (), [], 0, l)
  | bucket :: rest, l =>
    match clearDeadBucket isDead isLiveKey clearValues clearKeys mode bucket l with
    | (.error e, l) => (.error e, bucket :: rest, 0, l)
    | (.ok change, l) =>
      match clearDeadBuckets mode rest l with
      | (r, rest, cleared, l) =>
        match change with
        | none => (r, bucket :: rest, cleared, l)
        | some bucket => (r, bucket :: rest, cleared + 1, l)

/-- `saturating_add` on the version counter. -/
def Table.bumpBy (t : Table) (n : Nat) : Table :=
  { t with mutationVersion := min (t.mutationVersion + n) (2 ^ 64 - 1) }

/-- Remove the dead entries of a weak table. -/
def Table.clearDeadWeakPairs (t : Table) (l : Ledger) : Except VmError Unit × Table × Ledger :=
  if t.weakMode = .strong then (.ok (), t, l)
  else
    let (r, array, cleared) :=
      if clearValues && t.weakMode.weakValues then clearDeadArray isDead t.array
      else (.ok (), t.array, 0)
    let t := { t.bumpBy cleared with array := array }
    match r with
    | .error e => (.error e, t, l)
    | .ok _ =>
      let (r, hash, cleared, l) :=
        clearDeadBuckets isDead isLiveKey clearValues clearKeys t.weakMode t.hash l
      let t := { t.bumpBy cleared with hash := hash }
      match r with
      | .error e => (.error e, t, l)
      | .ok _ =>
        -- a hash part without entries is dropped
        if hash ≠ [] ∧ hash.all Option.isNone then (.ok (), { t with hash := [] }.bumpMutationVersion, l)
        else (.ok (), t, l)

end Clear

end RivetLua.Runtime
