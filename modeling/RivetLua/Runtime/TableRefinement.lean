import RivetLua.Runtime.TableMutation

namespace RivetLua.Runtime

open RivetLua.Core StateProg

/-!
# Runtime — a table is a finite map

The abstract table is a partial function on classes of keys; assigning nil removes a field.

* `FieldMap` — the abstract table, `FieldMap.assign` its only update;
* `RawSet` — one call of `Table.rawSet`; `rawSets` runs a sequence of them on the stored
  table and `FieldMap.ofSets` on the abstract one;
* `rawSets_refines` — after any sequence of successful writes the raw read agrees with the
  abstract table, and the storage invariant holds.
-/

/-! ### The abstract table -/

/-- A finite map from classes of keys to values. -/
abbrev FieldMap := RawKey → Option Value

namespace FieldMap

/-- The map without fields. -/
def empty : FieldMap := fun _ => none

/-- Assign a field; nil removes it. -/
def assign (m : FieldMap) (r : RawKey) (v : Value) : FieldMap :=
  Function.update m r (if v = .nil then none else some v)

/-- The value of a key, nil when there is no field or the value cannot be a key. -/
def lookup (m : FieldMap) (vm : Vm) (key : Value) : Value :=
  match RawKey.ofValue vm key with
  | some r => (m r).getD .nil
  | none => .nil

end FieldMap

/-- One raw write: the heap and the ledger it runs in, the key and the value. -/
structure RawSet where
  view : Vm
  ledger : Ledger
  key : Value
  value : Value

/-- The abstract effect of one write. -/
def FieldMap.apply (m : FieldMap) (op : RawSet) : FieldMap :=
  match RawKey.ofValue op.view op.key with
  | some r => m.assign r op.value
  | none => m

/-- The abstract effect of a sequence of writes. -/
def FieldMap.ofSets (ops : List RawSet) : FieldMap := ops.foldl FieldMap.apply FieldMap.empty

namespace Table

/-- The stored fields agree with the abstract ones. -/
def Represents (t : Table) (m : FieldMap) : Prop := ∀ r v, t.Holds r v ↔ m r = some v

/-- No two hash entries hold equal keys. -/
theorem Wf.keys_ne {t : Table} (wf : t.Wf) {p q : Nat} {k k' : CanonicalKey} {v v' : Value}
    (hpq : p ≠ q) (hp : t.entry p = some (k, v)) (hq : t.entry q = some (k', v')) :
    k.eq k' = false := by
  rw [Bool.eq_false_iff, ne_eq, CanonicalKey.eq_iff_rawKey (wf.storable hp) (wf.storable hq)]
  exact fun h => hpq (wf.distinct hp hq h)

/-- No integer key is live in its array slot and in a hash entry. -/
theorem Wf.parts_disjoint {t : Table} (wf : t.Wf) {i p : Nat} {n : Int64} {v w : Value}
    (hn : n.toInt = i + 1) (hs : t.slot i = some w) (he : t.entry p = some (.integer n, v)) :
    v = .nil := by
  refine wf.exclusive hs he ?_
  simp only [CanonicalKey.rawKey, RawKey.arrayIndex]
  rw [if_pos (by omega)]
  congr 1
  omega

/-- A table without entries and array values is well formed and stands for the empty map. -/
theorem represents_empty {t : Table} (hentry : ∀ p, t.entry p = none)
    (hslot : ∀ i, t.slot i = none) : t.Wf ∧ t.Represents FieldMap.empty := by
  refine ⟨⟨?_, ?_, ?_, ?_⟩, ?_⟩
  · intro p k v h
    rw [hentry] at h
    exact absurd h (by simp)
  · intro p q k v k' v' h
    rw [hentry] at h
    exact absurd h (by simp)
  · intro i h
    rw [hslot] at h
    exact absurd h (by simp)
  · intro i p k v w h
    rw [hslot] at h
    exact absurd h (by simp)
  · intro r v
    constructor
    · rintro ⟨-, ⟨i, -, hs⟩ | ⟨p, k, he, -⟩⟩
      · rw [hslot] at hs
        exact absurd hs (by simp)
      · rw [hentry] at he
        exact absurd he (by simp)
    · intro h
      exact absurd h (by simp [FieldMap.empty])

theorem tryNew_empty {arrayCapacity hashCapacity hashSeed : Nat} {l l' : Ledger} {t : Table}
    (h : tryNew arrayCapacity hashCapacity hashSeed l = (.ok t, l')) :
    (∀ p, t.entry p = none) ∧ ∀ i, t.slot i = none := by
  obtain ⟨_, _, -, h⟩ := Prog.bind_eq_ok h
  obtain ⟨_, _, -, h⟩ := Prog.bind_eq_ok h
  simp only [Prog.pure_apply, Prod.mk.injEq, Except.ok.injEq] at h
  obtain ⟨rfl, -⟩ := h
  refine ⟨fun p => ?_, fun i => ?_⟩
  · simp only [entry, List.getElem?_replicate]
    split <;> rfl
  · simp only [slot, List.getElem?_replicate]
    split <;> rfl

theorem tryNew_spec {arrayCapacity hashCapacity hashSeed : Nat} {l l' : Ledger} {t : Table}
    (h : tryNew arrayCapacity hashCapacity hashSeed l = (.ok t, l')) :
    t.Wf ∧ t.Represents FieldMap.empty :=
  represents_empty (tryNew_empty h).1 (tryNew_empty h).2

/-- A written table stands for the assigned map. -/
theorem Written.represents {t t' : Table} {r : RawKey} {v : Value} {m : FieldMap}
    (h : Written t t' r v) (hm : t.Represents m) : t'.Represents (m.assign r v) := by
  intro r' v'
  rw [h.holds]
  unfold FieldMap.assign
  by_cases hr : r' = r
  · subst hr
    rw [if_pos rfl, Function.update_self]
    by_cases hv : v = .nil
    · rw [if_pos hv]
      subst hv
      simp
    · rw [if_neg hv, Option.some.injEq]
      exact ⟨fun h => h.1.symm, fun h => ⟨h.symm, h ▸ hv⟩⟩
  · rw [if_neg hr, Function.update_of_ne hr]
    exact hm r' v'

variable [DefaultHasher]

/-- Run a sequence of raw writes; the sequence stops at the first write that fails. -/
def rawSets (t : Table) : List RawSet → Except VmError Table
  | [] => .ok t
  | op :: ops =>
    match (rawSet op.view t op.key op.value op.ledger).1 with
    | .ok t' => rawSets t' ops
    | .error e => .error e

/-- A prepared raw write never reports an inconsistency, and writes the class of its key. -/
theorem Wf.prepareRawSet_spec {t : Table} (wf : t.Wf) (vm : Vm) (key value : Value) :
    Triple (fun _ => True) (t.prepareRawSet vm key value)
      (fun m _ => ∃ r, RawKey.ofValue vm key = some r ∧ Written t (m.apply t) r value)
      (fun e _ => e ≠ .ledgerInvariant) := by
  unfold prepareRawSet
  refine Triple.ite (fun _ _ _ => VmError.noConfusion) (fun _ => ?_)
  refine Triple.ite (fun _ _ _ => VmError.noConfusion) (fun _ => ?_)
  refine Triple.bind (canonicalKey_spec vm key) fun k => ?_
  cases k with
  | none => exact fun _ _ => VmError.noConfusion
  | some k =>
    intro l hk
    have := wf.prepareSet_spec (hk.2 k rfl) value l trivial
    rcases hm : t.prepareSet k value l with ⟨m | m, l'⟩
    · rw [hm] at this
      simpa only [hm] using this
    · rw [hm] at this
      simp only [hm]
      exact ⟨k.rawKey, hk.1, this⟩

/-- One successful raw write. -/
theorem Wf.rawSet_written {t : Table} (wf : t.Wf) {op : RawSet} {t' : Table}
    (h : (rawSet op.view t op.key op.value op.ledger).1 = .ok t') :
    ∃ r, RawKey.ofValue op.view op.key = some r ∧ Written t t' r op.value := by
  rcases hrun : rawSet op.view t op.key op.value op.ledger with ⟨res, l'⟩
  rw [hrun] at h
  obtain rfl : res = .ok t' := h
  obtain ⟨mutation, l, hprep, hpub⟩ := Prog.bind_eq_ok hrun
  obtain ⟨r, hr, hw⟩ := (wf.prepareRawSet_spec op.view op.key op.value).ok trivial hprep
  obtain ⟨rfl, -⟩ : mutation.apply t = t' ∧ l = l' := by simpa using hpub
  exact ⟨r, hr, hw⟩

/-- A sequence of successful raw writes. -/
theorem Wf.rawSets_spec {t : Table} (wf : t.Wf) {m : FieldMap} (hm : t.Represents m)
    {ops : List RawSet} {t' : Table} (h : t.rawSets ops = .ok t') :
    t'.Wf ∧ t'.Represents (ops.foldl FieldMap.apply m) := by
  induction ops generalizing t m with
  | nil =>
    obtain rfl : t = t' := by simpa [rawSets] using h
    exact ⟨wf, hm⟩
  | cons op ops ih =>
    simp only [rawSets] at h
    cases hop : (rawSet op.view t op.key op.value op.ledger).1 with
    | error e => rw [hop] at h; exact absurd h (by simp)
    | ok u =>
      rw [hop] at h
      obtain ⟨r, hr, hw⟩ := wf.rawSet_written hop
      refine ih hw.wf ?_ h
      rw [FieldMap.apply, hr]
      exact hw.represents hm

/-- The raw read of a table that stands for a map. -/
theorem Wf.rawGet_eq {t : Table} (wf : t.Wf) {m : FieldMap} (hm : t.Represents m) {vm : Vm}
    {key : Value} {l : Ledger} {k : Option CanonicalKey}
    (hk : (canonicalKey vm key l).1 = .ok k) :
    (t.rawGet vm key l).1 = .ok (m.lookup vm key) := by
  rcases hrun : canonicalKey vm key l with ⟨res, l'⟩
  rw [hrun] at hk
  obtain rfl : res = .ok k := hk
  obtain ⟨hclass, hstorable⟩ := (canonicalKey_spec vm key).ok trivial hrun
  unfold rawGet FieldMap.lookup
  rw [Prog.bind_apply_ok hrun, hclass]
  cases k with
  | none => rfl
  | some k =>
    simp only [Option.map_some, Prog.pure_apply, Except.ok.injEq]
    -- both sides are nil, or the same value
    have hiff := fun {v : Value} (hv : v ≠ .nil) =>
      (wf.get_eq_iff (hstorable k rfl) hv).trans (hm k.rawKey v)
    cases hmk : m k.rawKey with
    | none =>
      by_contra hne
      have := (hiff (v := t.get k) (by simpa using hne)).mp rfl
      rw [hmk] at this
      exact absurd this (by simp)
    | some v =>
      have hv : v ≠ .nil := ((hm k.rawKey v).mpr hmk).1
      exact (hiff hv).mpr hmk

end Table

/-- **Tables refine finite maps.**  From a new table of any capacities and seed, with any
    hasher, any sequence of successful raw writes leads to a table where

    * the raw read of every key that converts is the value of the abstract table, whose keys
      are classes, and primitive equality of values is equality of classes;
    * no two hash entries hold equal keys;
    * no integer key is live in its array slot and in a hash entry;
    * no write that may come next reports an internal inconsistency. -/
theorem rawSets_refines [DefaultHasher] {arrayCapacity hashCapacity hashSeed : Nat}
    {l l' : Ledger} {t₀ t : Table} {ops : List RawSet}
    (hnew : Table.tryNew arrayCapacity hashCapacity hashSeed l = (.ok t₀, l'))
    (hrun : t₀.rawSets ops = .ok t) :
    (∀ vm key ledger k, (canonicalKey vm key ledger).1 = .ok k →
      (t.rawGet vm key ledger).1 = .ok ((FieldMap.ofSets ops).lookup vm key)) ∧
    (∀ vm a b r s, RawKey.ofValue vm a = some r → RawKey.ofValue vm b = some s →
      rawEqual vm a b = .ok (decide (r = s))) ∧
    (∀ p q k k' v v', p ≠ q → t.entry p = some (k, v) → t.entry q = some (k', v') →
      k.eq k' = false) ∧
    (∀ (i p : Nat) (n : Int64) (v w : Value), n.toInt = i + 1 → t.slot i = some w →
      t.entry p = some (.integer n, v) → v = .nil) ∧
    (∀ vm key value ledger,
      (t.prepareRawSet vm key value ledger).1 ≠ .error .ledgerInvariant) := by
  obtain ⟨wf₀, hm₀⟩ := Table.tryNew_spec hnew
  obtain ⟨wf, hm⟩ := wf₀.rawSets_spec hm₀ hrun
  refine ⟨?_, ?_, ?_, ?_, ?_⟩
  · intro vm key ledger k hk
    exact wf.rawGet_eq hm hk
  · intro vm a b r s ha hb
    exact rawEqual_eq_ofValue ha hb
  · intro p q k k' v v' hpq hp hq
    exact wf.keys_ne hpq hp hq
  · intro i p n v w hn hs he
    exact wf.parts_disjoint hn hs he
  · intro vm key value ledger herr
    rcases hp : t.prepareRawSet vm key value ledger with ⟨res, l''⟩
    rw [hp] at herr
    obtain rfl : res = .error .ledgerInvariant := herr
    exact (wf.prepareRawSet_spec vm key value).error trivial hp rfl

/-- A hasher that sends every key to the same bucket. -/
@[reducible]
def collidingHasher : DefaultHasher := ⟨fun _ _ => 0⟩

/-- A heap without objects, for fixed inputs. -/
def Vm.sample : Vm := Vm.new ⟨1⟩ .lua54 0 .granting (fun _ => false) 0

/-- An empty table without capacity, for fixed inputs. -/
def Table.sample : Table := ⟨none, .strong, 7, 0, [], []⟩

/-- Three writes to a table without capacity: key 2 goes to the hash part, key 1 makes the
    array grow over it, and key 2 is deleted there. -/
def sampleSets : List RawSet :=
  [⟨.sample, .granting, .integer 2, .boolean true⟩,
   ⟨.sample, .granting, .integer 1, .boolean false⟩,
   ⟨.sample, .granting, .integer 2, .nil⟩]

theorem rawSets_refines_sampleSets :
    ∃ t, @Table.rawSets collidingHasher .sample sampleSets = .ok t ∧
      (@Table.rawGet collidingHasher .sample t (.integer 1) .granting).1 = .ok (.boolean false) ∧
      (@Table.rawGet collidingHasher .sample t (.integer 2) .granting).1 = .ok .nil := by
  have hnew : Table.tryNew 0 0 7 .granting = (.ok .sample, _) := rfl
  obtain ⟨t, hrun⟩ : ∃ t, @Table.rawSets collidingHasher .sample sampleSets = .ok t := ⟨_, rfl⟩
  have h := (@rawSets_refines collidingHasher _ _ _ _ _ _ _ _ hnew hrun).1
  refine ⟨t, hrun, ?_, ?_⟩
  · rw [h _ _ _ _ rfl]
    decide
  · rw [h _ _ _ _ rfl]
    decide

end RivetLua.Runtime
