import RivetLua.Runtime.AccountedPair
import RivetLua.Runtime.Mutator
import RivetLua.Runtime.TableRefinement

namespace RivetLua.Runtime

open RivetLua.Core StateProg

/-!
# Runtime — the version under which a lookup may be cached

A table counts its mutations.  An interpreter keeps the value of an integer key together with the
count, and takes a kept value for the current one as long as the count is the same.

* `Table.lookupCacheVersion` — the count, for a key whose value may be kept;
* `Table.restoreExistingByteKey` — the write that undoes an installation;
* `TableOp`, `Table.run` — the operations that reach a table, and their runs;
* `TableOp.apply_advance` — one operation counts up or changes nothing a lookup reads;
* `lookup_of_version` — equal versions give equal lookups.
-/

namespace Table

/-- The integer keys that live in the array part as it is. -/
def hasArraySlot (t : Table) (key : Int64) : Bool :=
  (CanonicalKey.integer key).arrayIndex.any fun index => decide (index < t.array.length)

/-- `lookup_cache_version`. -/
def lookupCacheVersion (t : Table) (key : Int64) : Option Nat :=
  if t.metatable = none ∧ t.weakMode = .strong ∧ t.mutationVersion ≠ 2 ^ 64 - 1
      ∧ t.hasArraySlot key = false then
    some t.mutationVersion
  else none

/-- `get_integer`. -/
def getInteger [DefaultHasher] (t : Table) (key : Int64) : Value := t.get (.integer key)

/-- The first bucket with a live field of a name. -/
def livePosition (t : Table) (name : List UInt8) : Option Nat :=
  t.hash.findIdx? fun bucket =>
    bucket.any fun entry => decide (entry.2 ≠ .nil ∧ entry.1.stringBytes = some name)

/-- `restore_existing_byte_key`: the field must exist; nil removes it, and the last removed field
    takes the hash part with it. -/
def restoreExistingByteKey (t : Table) (name : List UInt8) (value : Value) :
    Except VmError Table :=
  match t.livePosition name with
  | none => .error .ledgerInvariant
  | some index =>
    if value = .nil then
      let hash := t.hash.set index none
      .ok (bumpMutationVersion { t with hash := if hash.all Option.isNone then [] else hash })
    else
      .ok (bumpMutationVersion
        { t with hash := t.hash.modify index (Option.map fun entry => (entry.1, value)) })

end Table

/-! ### Runs -/

open Allocation in
/-- An operation that reaches a table, with all it takes from outside: the heap the keys are looked
    up in, the ledger, and what the collector knows of the objects. -/
inductive TableOp where
  | rawSet (vm : Vm) (key value : Value) (ledger : Ledger)
  | rawSetRefPair (s : Surroundings) (first second : Int64 × Value) (books : Books)
  | setMetatable (metatable : Option ObjectRef)
  | setWeakMode (mode : WeakMode)
  | clearDeadWeakPairs (isDead isLiveKey : ObjectRef → Except VmError Bool)
      (clearValues clearKeys : Bool) (ledger : Ledger)
  | restoreExistingByteKey (name : List UInt8) (value : Value)

namespace TableOp

variable [DefaultHasher]

open Allocation in
/-- The table behind an operation, also where the operation fails: only `clearDeadWeakPairs` keeps
    what it has done before an error. -/
def apply (t : Table) : TableOp → Table
  | .rawSet vm key value ledger => (t.rawSet vm key value ledger).1.toOption.getD t
  | .rawSetRefPair s first second books =>
    ((do
      let pair ← prepareRefPair s t first second
      let pair ← pair.commitAccounting
      pure (pair.apply t) : BooksM Table) books).1.toOption.getD t
  | .setMetatable metatable => t.setMetatable metatable
  | .setWeakMode mode => t.setWeakMode mode
  | .clearDeadWeakPairs isDead isLiveKey clearValues clearKeys ledger =>
    (t.clearDeadWeakPairs isDead isLiveKey clearValues clearKeys ledger).2.1
  | .restoreExistingByteKey name value => (t.restoreExistingByteKey name value).toOption.getD t

end TableOp

/-- A run of operations. -/
def Table.run [DefaultHasher] (t : Table) (ops : List TableOp) : Table := ops.foldl TableOp.apply t

/-! ### One operation -/

namespace Table

/-- The largest count, at which no value is kept. -/
def versionMax : Nat := 2 ^ 64 - 1

/-- What may happen between two tables of a run: the count does not go down, and unless it has gone
    up or cannot, nothing a lookup reads has changed. -/
structure Advance (t t' : Table) : Prop where
  le : t.mutationVersion ≤ t'.mutationVersion
  bounded : t'.mutationVersion ≤ versionMax
  same : t'.mutationVersion = t.mutationVersion → t.mutationVersion ≠ versionMax →
    t'.array = t.array ∧ t'.hash = t.hash ∧ t'.hashSeed = t.hashSeed

variable {t t' t'' : Table}

theorem Advance.refl (h : t.mutationVersion ≤ versionMax) : t.Advance t :=
  ⟨le_refl _, h, fun _ _ => ⟨rfl, rfl, rfl⟩⟩

theorem Advance.trans (h : t.Advance t') (h' : t'.Advance t'') : t.Advance t'' := by
  refine ⟨h.le.trans h'.le, h'.bounded, fun hversion hmax => ?_⟩
  -- a count that comes back has stayed where it was
  have hle := h.le
  have hle' := h'.le
  obtain ⟨harray, hhash, hseed⟩ := h.same (by omega) hmax
  obtain ⟨harray', hhash', hseed'⟩ := h'.same (by omega) (by omega)
  exact ⟨harray'.trans harray, hhash'.trans hhash, hseed'.trans hseed⟩

/-- A counted change. -/
theorem Advance.of_bump {u : Table} (h : t.mutationVersion ≤ versionMax)
    (hu : u.mutationVersion = t.mutationVersion) : t.Advance u.bumpMutationVersion := by
  have hversion : u.bumpMutationVersion.mutationVersion
      = min (t.mutationVersion + 1) versionMax := by
    rw [← hu]
    rfl
  refine ⟨?_, ?_, fun hsame hmax => ?_⟩
  · rw [hversion]
    omega
  · rw [hversion]
    exact min_le_right _ _
  · rw [hversion] at hsame
    omega

/-- So many counted changes; where there is none, nothing has changed. -/
theorem Advance.of_bumpBy {n : Nat} {array : List (Option Value)} {hash : List Bucket}
    (h : t.mutationVersion ≤ versionMax) (hzero : n = 0 → array = t.array ∧ hash = t.hash) :
    t.Advance { t.bumpBy n with array := array, hash := hash } := by
  have hversion : ({ t.bumpBy n with array := array, hash := hash } : Table).mutationVersion
      = min (t.mutationVersion + n) versionMax := rfl
  refine ⟨?_, ?_, fun hsame hmax => ?_⟩
  · rw [hversion]
    omega
  · rw [hversion]
    exact min_le_right _ _
  · rw [hversion] at hsame
    obtain ⟨harray, hhash⟩ := hzero (by omega)
    exact ⟨harray, hhash, rfl⟩

theorem setMetatable_advance (h : t.mutationVersion ≤ versionMax)
    (metatable : Option ObjectRef) : t.Advance (t.setMetatable metatable) := by
  unfold setMetatable
  split
  · exact ⟨le_refl _, h, fun _ _ => ⟨rfl, rfl, rfl⟩⟩
  · exact Advance.of_bump (u := { t with metatable := metatable }) h rfl

theorem setWeakMode_advance (h : t.mutationVersion ≤ versionMax) (mode : WeakMode) :
    t.Advance (t.setWeakMode mode) := by
  unfold setWeakMode
  split
  · exact ⟨le_refl _, h, fun _ _ => ⟨rfl, rfl, rfl⟩⟩
  · exact Advance.of_bump (u := { t with weakMode := mode }) h rfl

theorem restoreExistingByteKey_advance (h : t.mutationVersion ≤ versionMax)
    {name : List UInt8} {value : Value} (hrun : t.restoreExistingByteKey name value = .ok t') :
    t.Advance t' := by
  unfold restoreExistingByteKey at hrun
  split at hrun
  · cases hrun
  · split at hrun <;> cases hrun <;> exact Advance.of_bump h rfl

end Table

/-- Every mutation but the empty one counts. -/
theorem PreparedTableMutation.apply_advance {t : Table} (m : PreparedTableMutation)
    (h : t.mutationVersion ≤ Table.versionMax) : t.Advance (m.apply t) := by
  cases m with
  | noop => exact Table.Advance.refl h
  | hashSlot index value deadKey =>
    simp only [apply]
    split <;> exact Table.Advance.of_bump h rfl
  | arraySlot index value | hashReplace index key value | hashInsert index key value
  | growArray next value | growHash next existingCount key value =>
    exact Table.Advance.of_bump h rfl

namespace Allocation

/-- The writes of a pair do not touch the count themselves. -/
theorem PreparedRefPair.applyEntry_version (t : Table) (entry : RefPairEntry) :
    (applyEntry t entry).mutationVersion = t.mutationVersion := by
  unfold applyEntry
  split <;> rfl

theorem PreparedRefPair.foldl_applyEntry_version (entries : List RefPairEntry) (t : Table) :
    (entries.foldl applyEntry t).mutationVersion = t.mutationVersion := by
  induction entries generalizing t with
  | nil => rfl
  | cons entry rest ih =>
    rw [List.foldl_cons, ih]
    exact applyEntry_version t entry

theorem PreparedRefPair.apply_advance {t : Table} (pair : PreparedRefPair)
    (h : t.mutationVersion ≤ Table.versionMax) : t.Advance (pair.apply t) := by
  unfold apply
  refine Table.Advance.of_bump h ?_
  rw [foldl_applyEntry_version]

end Allocation

section Clear

variable {isDead isLiveKey : ObjectRef → Except VmError Bool} {clearValues clearKeys : Bool}

/-- An array part none of whose slots was cleared is as it was. -/
theorem clearDeadArray_zero {array : List (Option Value)}
    (h : (clearDeadArray isDead array).2.2 = 0) : (clearDeadArray isDead array).2.1 = array := by
  induction array with
  | nil => rfl
  | cons entry rest ih =>
    rw [clearDeadArray] at h ⊢
    cases hobject : entry.bind Value.objectRef? with
    | none =>
      simp only [hobject] at h ⊢
      rw [ih h]
    | some object =>
      simp only [hobject] at h ⊢
      cases hdead : isDead object with
      | error e => simp only
      | ok dead =>
        simp only [hdead] at h ⊢
        cases dead with
        | true => simp at h
        | false =>
          simp only [Bool.false_eq_true, if_false] at h ⊢
          rw [ih h]

/-- A hash part none of whose buckets was changed is as it was. -/
theorem clearDeadBuckets_zero {mode : WeakMode} {hash : List Bucket} {l : Ledger}
    (h : (clearDeadBuckets isDead isLiveKey clearValues clearKeys mode hash l).2.2.1 = 0) :
    (clearDeadBuckets isDead isLiveKey clearValues clearKeys mode hash l).2.1 = hash := by
  induction hash generalizing l with
  | nil => rfl
  | cons bucket rest ih =>
    rw [clearDeadBuckets] at h ⊢
    rcases hrun : clearDeadBucket isDead isLiveKey clearValues clearKeys mode bucket l with
      ⟨_ | change, l'⟩
    · simp only
    · simp only [hrun] at h ⊢
      cases change with
      | none =>
        simp only at h ⊢
        rw [ih h]
      | some bucket' => simp at h

theorem Table.clearDeadBuckets_advance {t : Table} (h : t.mutationVersion ≤ versionMax)
    {mode : WeakMode} {l l' : Ledger} {r : Except VmError Unit} {hash : List Bucket}
    {cleared : Nat}
    (hrun : clearDeadBuckets isDead isLiveKey clearValues clearKeys mode t.hash l
      = (r, hash, cleared, l')) :
    t.Advance { t.bumpBy cleared with hash := hash } := by
  refine Advance.of_bumpBy h fun hzero => ⟨rfl, ?_⟩
  have hsame := @clearDeadBuckets_zero isDead isLiveKey clearValues clearKeys mode t.hash l
  rw [hrun] at hsame
  exact hsame hzero

/-- Clearing the dead entries of a weak table, also where it stops at an error. -/
theorem Table.clearDeadWeakPairs_advance {t : Table} (h : t.mutationVersion ≤ versionMax)
    (l : Ledger) :
    t.Advance (t.clearDeadWeakPairs isDead isLiveKey clearValues clearKeys l).2.1 := by
  unfold clearDeadWeakPairs
  split
  · exact Advance.refl h
  -- the array part first; the count goes up with every cleared slot
  have harray : ∀ {r : Except VmError Unit} {array : List (Option Value)} {cleared : Nat},
      (if clearValues && t.weakMode.weakValues then clearDeadArray isDead t.array
        else (.ok (), t.array, 0)) = (r, array, cleared) →
      t.Advance { t.bumpBy cleared with array := array } := by
    intro r array cleared hrun
    refine Advance.of_bumpBy h fun hzero => ⟨?_, rfl⟩
    split at hrun
    · have hsame := @clearDeadArray_zero isDead t.array
      rw [hrun] at hsame
      exact hsame hzero
    · cases hrun
      rfl
  rcases hrun : (if clearValues && t.weakMode.weakValues then clearDeadArray isDead t.array
    else (.ok (), t.array, 0)) with ⟨_ | _, array, cleared⟩
  · simp only
    exact harray hrun
  have hfirst := harray hrun
  simp only
  rcases hbuckets : clearDeadBuckets isDead isLiveKey clearValues clearKeys
    (t.bumpBy cleared).weakMode (t.bumpBy cleared).hash l with ⟨_ | _, hash, changed, l'⟩
  · simp only
    exact hfirst.trans (clearDeadBuckets_advance hfirst.bounded hbuckets)
  have hsecond := hfirst.trans (clearDeadBuckets_advance hfirst.bounded hbuckets)
  simp only
  split
  · exact hsecond.trans (Advance.of_bump hsecond.bounded rfl)
  · exact hsecond

end Clear

/-! ### Runs of operations -/

section Run

variable [DefaultHasher]

/-- **One operation** counts up, or leaves what a lookup reads as it was. -/
theorem TableOp.apply_advance {t : Table} (h : t.mutationVersion ≤ Table.versionMax)
    (op : TableOp) : t.Advance (op.apply t) := by
  cases op with
  | rawSet vm key value ledger =>
    simp only [apply]
    rcases hrun : t.rawSet vm key value ledger with ⟨_ | t', ledger'⟩
    · exact Table.Advance.refl h
    · obtain ⟨mutation, l, -, hpub⟩ := Prog.bind_eq_ok hrun
      obtain ⟨rfl, -⟩ : mutation.apply t = t' ∧ l = ledger' := by simpa using hpub
      exact mutation.apply_advance h
  | rawSetRefPair s first second books =>
    simp only [apply]
    rcases hrun : (do
      let pair ← Allocation.prepareRefPair s t first second
      let pair ← pair.commitAccounting
      pure (pair.apply t) : Allocation.BooksM Table) books with ⟨_ | t', books'⟩
    · exact Table.Advance.refl h
    · obtain ⟨pair, b, -, hcommit⟩ := Prog.bind_eq_ok hrun
      obtain ⟨pair', b', -, hpub⟩ := Prog.bind_eq_ok hcommit
      obtain ⟨rfl, -⟩ : pair'.apply t = t' ∧ b' = books' := by simpa using hpub
      exact pair'.apply_advance h
  | setMetatable metatable => exact Table.setMetatable_advance h metatable
  | setWeakMode mode => exact Table.setWeakMode_advance h mode
  | clearDeadWeakPairs isDead isLiveKey clearValues clearKeys ledger =>
    exact Table.clearDeadWeakPairs_advance h ledger
  | restoreExistingByteKey name value =>
    simp only [apply]
    cases hrun : t.restoreExistingByteKey name value with
    | error e => exact Table.Advance.refl h
    | ok t' => exact Table.restoreExistingByteKey_advance h hrun

/-- **A run** counts up, or leaves what a lookup reads as it was. -/
theorem Table.run_advance {t : Table} (h : t.mutationVersion ≤ versionMax)
    (ops : List TableOp) : t.Advance (t.run ops) := by
  induction ops generalizing t with
  | nil => exact Advance.refl h
  | cons op ops ih =>
    have hop := op.apply_advance h
    exact hop.trans (ih hop.bounded)

/-- A lookup reads the array part, the hash part and the seed. -/
theorem Table.get_congr {t t' : Table} (harray : t'.array = t.array) (hhash : t'.hash = t.hash)
    (hseed : t'.hashSeed = t.hashSeed) (key : CanonicalKey) : t'.get key = t.get key := by
  obtain ⟨metatable, weakMode, seed, version, array, hash⟩ := t
  obtain ⟨metatable', weakMode', seed', version', array', hash'⟩ := t'
  obtain rfl : array' = array := harray
  obtain rfl : hash' = hash := hhash
  obtain rfl : seed' = seed := hseed
  rfl

end Run

/-- **A version stands for the value of its key.**  From any table, at any two points of any run of
    operations, failing ones among them: where `lookupCacheVersion` gives the same version for a key,
    a raw lookup of the key gives the same value. -/
theorem lookup_of_version [DefaultHasher] (t : Table) (hversion : t.mutationVersion < 2 ^ 64)
    (before between : List TableOp) (key : Int64) (version : Nat)
    (hfirst : (t.run before).lookupCacheVersion key = some version)
    (hsecond : (t.run (before ++ between)).lookupCacheVersion key = some version) :
    (t.run (before ++ between)).getInteger key = (t.run before).getInteger key := by
  have hbefore := Table.run_advance (t := t) (Nat.le_sub_one_of_lt hversion) before
  have hrun : t.run (before ++ between) = (t.run before).run between :=
    List.foldl_append
  rw [hrun] at hsecond ⊢
  have hbetween := Table.run_advance hbefore.bounded between
  unfold Table.lookupCacheVersion at hfirst hsecond
  split at hfirst
  · rename_i hallowed
    cases hfirst
    split at hsecond
    · have hsame := Option.some.inj hsecond
      obtain ⟨harray, hhash, hseed⟩ := hbetween.same hsame hallowed.2.2.1
      exact Table.get_congr harray hhash hseed _
    · cases hsecond
  · cases hfirst

/-- Key 2 is written; a deletion of an absent field and a restoration without a field leave the
    version and the value. -/
theorem lookup_of_version_absent :
    @Table.getInteger collidingHasher (@Table.run collidingHasher .sample
        [.rawSet .sample (.integer 2) (.boolean true) .granting,
          .rawSet .sample (.integer 5) .nil .granting,
          .restoreExistingByteKey [] .nil]) 2 = .boolean true := by
  have hvalue : @Table.getInteger collidingHasher (@Table.run collidingHasher .sample
      [.rawSet .sample (.integer 2) (.boolean true) .granting]) 2 = .boolean true := by
    decide +kernel
  rw [← hvalue]
  exact @lookup_of_version collidingHasher .sample (by decide)
    [.rawSet .sample (.integer 2) (.boolean true) .granting]
    [.rawSet .sample (.integer 5) .nil .granting, .restoreExistingByteKey [] .nil] 2 1
    (by decide +kernel) (by decide +kernel)

end RivetLua.Runtime
