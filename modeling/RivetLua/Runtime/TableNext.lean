import RivetLua.Runtime.TableRefinement

namespace RivetLua.Runtime

open RivetLua.Core StateProg

/-!
# Runtime — positions of a table and `next`

The positions of a table are its array slots followed by its buckets.

* `Table.fieldAt` — the live field at a position; `Table.keyAt` — the class of the key whose
  place it is;
* `Table.resume` — the position `next` continues from behind a key; `Wf.resumeAt_eq` and
  `Wf.nextRaw_of_start` tie it to the code: `next` returns the first live position from
  there on;
* `Table.Edited` — what writes to existing fields do to positions: nothing moves, fields only
  disappear.
-/

namespace Table

/-! ### Positions -/

/-- The live field at a position. -/
def fieldAt (t : Table) (x : Nat) : Option (Value × Value) :=
  if x < t.array.length then (t.slot x).map fun v => (.integer (Int64.ofNat (x + 1)), v)
  else
    match t.entry (x - t.array.length) with
    | some (k, v) => if v = .nil then none else some (k.asValue, v)
    | none => none

/-- The class of the key whose place a position is. -/
def keyAt (t : Table) (x : Nat) : Option RawKey :=
  if x < t.array.length then some (.integer (Int64.ofNat (x + 1)))
  else (t.entry (x - t.array.length)).map fun e => e.1.rawKey

/-- Is there a field at the position? -/
def LiveAt (t : Table) (x : Nat) : Prop := (t.fieldAt x).isSome

/-- The position a traversal continues from behind a key: behind its live array slot, else
    behind its bucket, dead or alive, else behind its empty array slot. -/
def resume (t : Table) (r : RawKey) : Option Nat :=
  let inHash := t.hash.findIdx? fun b => b.any fun e => decide (e.1.rawKey = r)
  match r.arrayIndex.filter (· < t.array.length) with
  | some i =>
    if (t.slot i).isSome then some (i + 1)
    else
      match inHash with
      | some p => some (t.array.length + p + 1)
      | none => some (i + 1)
  | none => inHash.map fun p => t.array.length + p + 1

/-- The heap view still knows the keys of the table: the keys of live fields resolve, C
    functions are its own, and no identity of an object key has become a string's. -/
structure Sees (t : Table) (vm : Vm) : Prop where
  live : ∀ {p k v}, t.entry p = some (k, v) → v ≠ .nil →
    RawKey.ofValue vm k.asValue = some k.rawKey
  function : ∀ {p id v}, t.entry p = some (.cFunction id, v) → id.vm = vm.id
  object : ∀ {p source id v}, t.entry p = some (.object source id, v) →
    ∀ o bytes external, vm.byteString o = .ok (bytes, external) → o.identity ≠ some id

theorem Sized.lt {t : Table} (h : t.Sized) : t.array.length < 2 ^ 63 - 1 := by
  unfold Sized optionValueSize usizeMax at h
  omega

theorem toInt_ofNat_succ {i : Nat} (h : i < 2 ^ 63 - 1) :
    (Int64.ofNat (i + 1)).toInt = i + 1 := by
  rw [Int64.toInt_ofNat_of_lt (by omega)]
  rfl

theorem arrayIndex_ofNat_succ {i : Nat} (h : i < 2 ^ 63 - 1) :
    (RawKey.integer (Int64.ofNat (i + 1))).arrayIndex = some i := by
  have := toInt_ofNat_succ h
  rw [RawKey.arrayIndex, if_pos (by omega), this]
  rfl

/-- The class of array index `i` is the integer `i + 1`. -/
theorem eq_integer_iff {r : RawKey} {i : Nat} (h : i < 2 ^ 63 - 1) :
    RawKey.integer (Int64.ofNat (i + 1)) = r ↔ r.arrayIndex = some i := by
  constructor
  · rintro rfl
    exact arrayIndex_ofNat_succ h
  · exact fun hr => RawKey.arrayIndex_inj (arrayIndex_ofNat_succ h) hr

/-! ### Locating the previous key -/

/-- The array search stops at the index of the key. -/
theorem findPreviousArray_eq {vm : Vm} {previous : Value} {r : RawKey}
    (hr : RawKey.ofValue vm previous = some r) :
    ∀ (l : List (Option Value)) (index : Nat), index + l.length ≤ 2 ^ 63 - 1 →
      findPreviousArray vm previous l index
        = .ok ((r.arrayIndex.filter fun i => index ≤ i ∧ i < index + l.length).map
            fun i => (i, (l[i - index]?).join.isSome))
  | [], index, _ => by
    cases h : r.arrayIndex with
    | none => rfl
    | some i =>
      rw [Option.filter_some, if_neg (by simp)]
      rfl
  | slot :: rest, index, hlen => by
    simp only [List.length_cons] at hlen
    have hint : RawKey.ofValue vm (.integer (Int64.ofNat (index + 1)))
        = some (.integer (Int64.ofNat (index + 1))) := rfl
    have ih := findPreviousArray_eq hr rest (index + 1) (by omega)
    have hidx := eq_integer_iff (r := r) (show index < 2 ^ 63 - 1 by omega)
    have harr : arrayKey index = .ok (Int64.ofNat (index + 1)) := by
      unfold arrayKey
      rw [if_pos (by omega)]
    rw [findPreviousArray, harr]
    show (heapError (rawEqual vm (.integer (Int64.ofNat (index + 1))) previous) >>= _) = _
    rw [rawEqual_eq_ofValue hint hr]
    show (if decide (_ = r) = true then _ else _) = _
    by_cases hc : RawKey.integer (Int64.ofNat (index + 1)) = r
    · rw [if_pos (decide_eq_true hc), hidx.mp hc, Option.filter_some, if_pos (by simp)]
      simp
    · rw [if_neg (by simpa using hc), ih]
      cases hi : r.arrayIndex with
      | none => rfl
      | some i =>
        have hne : i ≠ index := fun h => hc (hidx.mpr (h ▸ hi))
        rw [Option.filter_some, Option.filter_some]
        by_cases hin : index + 1 ≤ i ∧ i < index + 1 + rest.length
        · rw [if_pos (by simpa using hin), if_pos (by simp; omega)]
          have : i - index = (i - (index + 1)) + 1 := by omega
          simp [this]
        · rw [if_neg (by simpa using hin), if_neg (by simp; omega)]
          rfl

/-- A stored key matches the previous key when their classes agree. -/
theorem matchesPrevious_eq {vm : Vm} {k : CanonicalKey} {previous : Value} {r : RawKey}
    (hk : k.Storable) (hr : RawKey.ofValue vm previous = some r)
    (hfun : ∀ id, k = .cFunction id → id.vm = vm.id)
    (hobj : ∀ source id, k = .object source id →
      ∀ o bytes external, vm.byteString o = .ok (bytes, external) → o.identity ≠ some id) :
    k.matchesPrevious vm previous = .ok (decide (k.rawKey = r)) := by
  -- a string key compares bytes with a string, and nothing else
  have hstring : ∀ bytes, k.stringBytes = some bytes → k.rawKey = .string bytes →
      k.matchesPrevious vm previous = .ok (decide (k.rawKey = r)) := by
    intro bytes hb hraw
    unfold CanonicalKey.matchesPrevious
    rw [hb, hraw]
    cases previous with
    | object o =>
      obtain ⟨x, -, ⟨bs, e, hbs, rfl⟩ | ⟨id, hbs, -, rfl⟩⟩ := RawKey.ofValue_object hr
      · simp [Vm.objectKind_of_byteString hbs, hbs, Except.map, eq_comm]
      · obtain ⟨kind, hkind, hne⟩ := Vm.objectKind_of_wrongObjectType hbs
        simp [hkind, hne]
    | _ =>
      have : RawKey.string bytes ≠ r := by
        rintro rfl
        exact absurd (RawKey.exists_object hr rfl rfl) (by simp)
      simp [this]
  -- a key that is no object has itself as value
  have hvalue : k.stringBytes = none → RawKey.ofValue vm k.asValue = some k.rawKey →
      (∀ source id, k ≠ .object source id) →
      k.matchesPrevious vm previous = .ok (decide (k.rawKey = r)) := by
    intro hb hv hno
    unfold CanonicalKey.matchesPrevious
    rw [hb]
    cases k with
    | object source id => exact absurd rfl (hno source id)
    | _ => exact rawEqual_eq_ofValue hv hr
  cases k with
  | shortString source bytes => exact hstring bytes rfl rfl
  | byteString source bytes external => exact hstring bytes rfl rfl
  | deadShortString source bytes => exact hstring bytes rfl rfl
  | object source id =>
    unfold CanonicalKey.matchesPrevious
    cases previous with
    | object o =>
      obtain ⟨x, -, ⟨bs, e, hbs, rfl⟩ | ⟨id', hbs, hid', rfl⟩⟩ := RawKey.ofValue_object hr
      · simp [CanonicalKey.stringBytes, CanonicalKey.rawKey, hobj source id rfl o bs e hbs]
      · simp [CanonicalKey.stringBytes, CanonicalKey.rawKey, hid', eq_comm]
    | _ =>
      have : RawKey.object id ≠ r := by
        rintro rfl
        exact absurd (RawKey.exists_object hr rfl rfl) (by simp)
      simp [CanonicalKey.stringBytes, CanonicalKey.rawKey, this]
  | cFunction id =>
    refine hvalue rfl ?_ (by simp)
    simp [CanonicalKey.asValue, RawKey.ofValue, hfun id rfl, CanonicalKey.rawKey]
  | float x =>
    refine hvalue rfl ?_ (by simp)
    simp [CanonicalKey.asValue, RawKey.ofValue, RawKey.ofNumber, hk.1, hk.2, CanonicalKey.rawKey]
  | _ => exact hvalue rfl rfl (by simp)

/-- The hash search stops at the bucket of the key. -/
theorem findPreviousHash_eq {vm : Vm} {previous : Value} {r : RawKey} :
    ∀ (l : List Bucket) (index : Nat),
      (∀ k v, some (k, v) ∈ l → k.matchesPrevious vm previous = .ok (decide (k.rawKey = r))) →
      findPreviousHash vm previous l index
        = .ok ((l.findIdx? fun b => b.any fun e => decide (e.1.rawKey = r)).map (· + index))
  | [], _, _ => rfl
  | none :: rest, index, h => by
    rw [findPreviousHash, findPreviousHash_eq rest (index + 1)
      (fun k v hm => h k v (List.mem_cons_of_mem _ hm)), List.findIdx?_cons]
    simp [Option.map_map, Function.comp_def, Nat.add_assoc, Nat.add_comm 1]
  | some (k, v) :: rest, index, h => by
    have ih := findPreviousHash_eq (r := r) rest (index + 1)
      (fun k v hm => h k v (List.mem_cons_of_mem _ hm))
    rw [findPreviousHash, h k v List.mem_cons_self, List.findIdx?_cons]
    show (if decide (k.rawKey = r) = true then _ else _) = _
    by_cases hc : k.rawKey = r
    · simp [hc]
    · rw [if_neg (by simpa using hc), ih]
      simp [hc, Option.map_map, Function.comp_def, Nat.add_assoc, Nat.add_comm 1]

/-- **Where `next` resumes.** -/
theorem Wf.resumeAt_eq {t : Table} (wf : t.Wf) (hsize : t.Sized) {vm : Vm} (hsees : t.Sees vm)
    {previous : Value} {r : RawKey} (hr : RawKey.ofValue vm previous = some r) :
    (∀ x, t.resume r = some x → ∃ a h, resumeAt vm t previous = .ok (a, h) ∧ a + h = x ∧
      (h = 0 ∧ a ≤ t.array.length ∨ a = t.array.length)) ∧
    (t.resume r = none → resumeAt vm t previous = .error .invalidNextKey) := by
  have hnil : previous ≠ .nil := by
    rintro rfl
    exact absurd hr (by simp [RawKey.ofValue])
  have hmatch : ∀ k v, some (k, v) ∈ t.hash →
      k.matchesPrevious vm previous = .ok (decide (k.rawKey = r)) := by
    intro k v hm
    obtain ⟨p, hp⟩ := entry_of_mem hm
    refine matchesPrevious_eq (wf.storable hp) hr ?_ ?_
    · rintro id rfl
      exact hsees.function hp
    · rintro source id rfl
      exact hsees.object hp
  have hlen := hsize.lt
  have harray := findPreviousArray_eq hr t.array 0 (by omega)
  have hhash := findPreviousHash_eq t.hash 0 hmatch
  unfold resumeAt
  rw [if_neg hnil, harray]
  unfold resume
  simp only [Nat.zero_le, true_and, Nat.zero_add, Nat.sub_zero]
  rw [hhash]
  have hslot : ∀ i, (t.array[i]?).join = t.slot i := fun _ => rfl
  simp only [hslot, bind, Except.bind]
  cases hi : r.arrayIndex.filter fun i => decide (i < t.array.length) with
  | none =>
    cases hp : t.hash.findIdx? fun b => b.any fun e => decide (e.1.rawKey = r) with
    | none => simp
    | some p => simp; omega
  | some i =>
    have hin : i < t.array.length := by
      simpa using (Option.filter_eq_some_iff.mp hi).2
    cases hs : (t.slot i).isSome with
    | true => simp [hs]; omega
    | false =>
      cases hp : t.hash.findIdx? fun b => b.any fun e => decide (e.1.rawKey = r) with
      | none => simp [hs]; omega
      | some p => simp [hs]; omega

/-! ### The first field from a position on -/

/-- The array scan returns the first value. -/
theorem firstArray_spec : ∀ (l : List (Option Value)) (index : Nat),
    index + l.length ≤ 2 ^ 63 - 1 →
    (firstArray l index = .ok none ∧ ∀ j : Nat, (l[j]?).join = none) ∨
    ∃ (j : Nat) (v : Value), firstArray l index = .ok (some (.integer (Int64.ofNat (index + j + 1)), v)) ∧
      (l[j]?).join = some v ∧ ∀ j' < j, (l[j']?).join = none
  | [], _, _ => .inl ⟨rfl, by simp⟩
  | some v :: rest, index, h => by
    refine .inr ⟨0, v, ?_, rfl, by simp⟩
    simp only [List.length_cons] at h
    rw [firstArray, arrayKey, if_pos (by omega)]
    rfl
  | none :: rest, index, h => by
    simp only [List.length_cons] at h
    rw [firstArray]
    rcases firstArray_spec rest (index + 1) (by omega) with ⟨hn, hall⟩ | ⟨j, v, hv, hj, hlt⟩
    · refine .inl ⟨hn, fun j => ?_⟩
      cases j with
      | zero => rfl
      | succ j => simpa using hall j
    · refine .inr ⟨j + 1, v, ?_, by simpa using hj, fun j' hj' => ?_⟩
      · rw [hv]
        congr 6
        omega
      · cases j' with
        | zero => rfl
        | succ j' => simpa using hlt j' (by omega)

/-- No value other than nil. -/
def Dead (b : Bucket) : Prop := ∀ (k : CanonicalKey) (v : Value), b = some (k, v) → v = .nil

theorem firstHash_cons_of_dead {b : Bucket} (h : Dead b) (rest : List Bucket) :
    firstHash (b :: rest) = firstHash rest := by
  cases b with
  | none => rfl
  | some e =>
    obtain ⟨k, v⟩ := e
    rw [firstHash, if_pos (h k v rfl)]

/-- The hash scan returns the first live entry. -/
theorem firstHash_spec : ∀ l : List Bucket,
    (firstHash l = none ∧ ∀ j : Nat, Dead (l[j]?).join) ∨
    ∃ (j : Nat) (k : CanonicalKey) (v : Value), firstHash l = some (k.asValue, v) ∧
      (l[j]?).join = some (k, v) ∧ v ≠ .nil ∧ ∀ j' < j, Dead (l[j']?).join
  | [] => .inl ⟨rfl, by simp [Dead]⟩
  | b :: rest => by
    by_cases hb : Dead b
    · rw [firstHash_cons_of_dead hb]
      rcases firstHash_spec rest with ⟨hn, hall⟩ | ⟨j, k', v', hf, hj, hv', hlt⟩
      · refine .inl ⟨hn, fun j => ?_⟩
        cases j with
        | zero => exact hb
        | succ j => simpa using hall j
      · refine .inr ⟨j + 1, k', v', hf, by simpa using hj, hv', fun j' hj' => ?_⟩
        cases j' with
        | zero => exact hb
        | succ j' => simpa using hlt j' (by omega)
    · unfold Dead at hb
      push Not at hb
      obtain ⟨k, v, rfl, hv⟩ := hb
      exact .inr ⟨0, k, v, by rw [firstHash, if_neg hv], rfl, hv, by simp⟩

theorem fieldAt_of_lt {t : Table} {x : Nat} (h : x < t.array.length) :
    t.fieldAt x = (t.slot x).map fun v => (.integer (Int64.ofNat (x + 1)), v) := by
  unfold fieldAt
  rw [if_pos h]

/-- A field of the hash part. -/
theorem fieldAt_add {t : Table} {p : Nat} {f : Value × Value} :
    t.fieldAt (t.array.length + p) = some f ↔
      ∃ k, t.entry p = some (k, f.2) ∧ f.2 ≠ .nil ∧ f.1 = k.asValue := by
  unfold fieldAt
  rw [if_neg (by omega), Nat.add_sub_cancel_left]
  cases he : t.entry p with
  | none => simp
  | some e =>
    obtain ⟨k, v⟩ := e
    by_cases hv : v = .nil
    · simp only [hv, if_true, Option.some.injEq, Prod.mk.injEq]
      constructor
      · intro h
        exact absurd h (by simp)
      · rintro ⟨_, ⟨-, h⟩, h', -⟩
        exact absurd h.symm h'
    · simp only [if_neg hv, Option.some.injEq, Prod.mk.injEq]
      constructor
      · rintro rfl
        exact ⟨k, ⟨rfl, rfl⟩, hv, rfl⟩
      · rintro ⟨_, ⟨rfl, h⟩, -, h'⟩
        exact Prod.ext h'.symm h

theorem fieldAt_add_eq_none {t : Table} {p : Nat} :
    t.fieldAt (t.array.length + p) = none ↔ Dead (t.entry p) := by
  rw [Option.eq_none_iff_forall_ne_some]
  constructor
  · intro h k v he
    by_contra hv
    exact h (k.asValue, v) (fieldAt_add.mpr ⟨k, he, hv, rfl⟩)
  · rintro h ⟨k, v⟩ hf
    obtain ⟨k', he, hv, -⟩ := fieldAt_add.mp hf
    exact hv (h k' v he)

/-- **What `next` returns**: the first field from the resume position on. -/
theorem nextRaw_spec {t : Table} (hsize : t.Sized) {vm : Vm} {previous : Value} {a h : Nat}
    (hres : resumeAt vm t previous = .ok (a, h))
    (hah : h = 0 ∧ a ≤ t.array.length ∨ a = t.array.length) :
    (nextRaw vm t previous = .ok none ∧ ∀ y, a + h ≤ y → t.fieldAt y = none) ∨
    ∃ y f, a + h ≤ y ∧ nextRaw vm t previous = .ok (some f) ∧ t.fieldAt y = some f ∧
      ∀ z, a + h ≤ z → z < y → t.fieldAt z = none := by
  have hlen := hsize.lt
  -- positions of the scanned parts
  have hdrop : ∀ j, ((t.array.drop a)[j]?).join = t.slot (a + j) := by
    intro j
    rw [List.getElem?_drop, slot]
  have hdropHash : ∀ j, ((t.hash.drop h)[j]?).join = t.entry (h + j) := by
    intro j
    rw [List.getElem?_drop, entry]
  unfold nextRaw
  rw [hres]
  simp only [bind, Except.bind]
  rcases firstArray_spec (t.array.drop a) a (by rw [List.length_drop]; omega) with
    ⟨hn, hall⟩ | ⟨j, v, hv, hj, hlt⟩
  · rw [hn]
    -- nothing left in the array part
    have harray : ∀ y, a + h ≤ y → y < t.array.length → t.fieldAt y = none := by
      intro y hy hyl
      have := hall (y - a)
      rw [hdrop, Nat.add_sub_cancel' (by omega)] at this
      rw [fieldAt_of_lt hyl, this]
      rfl
    rcases firstHash_spec (t.hash.drop h) with ⟨hf, hdead⟩ | ⟨j, k, v, hf, hj, hv, hdead⟩
    · refine .inl ⟨by simp only [hf], fun y hy => ?_⟩
      by_cases hyl : y < t.array.length
      · exact harray y hy hyl
      · obtain ⟨p, rfl⟩ := Nat.exists_eq_add_of_le (not_lt.mp hyl)
        rw [fieldAt_add_eq_none]
        have := hdead (p - h)
        rwa [hdropHash, Nat.add_sub_cancel' (by omega)] at this
    · rw [hdropHash] at hj
      refine .inr ⟨t.array.length + (h + j), (k.asValue, v), ?_, by simp only [hf],
        fieldAt_add.mpr ⟨k, hj, hv, rfl⟩, fun z hz hzlt => ?_⟩
      · omega
      · by_cases hzl : z < t.array.length
        · exact harray z hz hzl
        · obtain ⟨p, rfl⟩ := Nat.exists_eq_add_of_le (not_lt.mp hzl)
          rw [fieldAt_add_eq_none]
          have := hdead (p - h) (by omega)
          rwa [hdropHash, Nat.add_sub_cancel' (by omega)] at this
  · rw [hdrop] at hj
    have hlt' := lt_of_slot hj
    have hh : h = 0 := by
      rcases hah with h0 | h0
      · exact h0.1
      · omega
    subst hh
    refine .inr ⟨a + j, (.integer (Int64.ofNat (a + j + 1)), v), by omega, by simp only [hv], ?_,
      fun z hz hzlt => ?_⟩
    · rw [fieldAt_of_lt hlt', hj]
      rfl
    · have := hlt (z - a) (by omega)
      rw [hdrop, Nat.add_sub_cancel' (by omega)] at this
      rw [fieldAt_of_lt (by omega), this]
      rfl

/-- `next` from the start, or behind a key that can be located. -/
theorem Wf.nextRaw_of_start {t : Table} (wf : t.Wf) (hsize : t.Sized) {vm : Vm}
    (hsees : t.Sees vm) {previous : Value} {x : Nat}
    (hx : (previous = .nil ∧ x = 0) ∨
      ∃ r, RawKey.ofValue vm previous = some r ∧ t.resume r = some x) :
    (nextRaw vm t previous = .ok none ∧ ∀ y, x ≤ y → t.fieldAt y = none) ∨
    ∃ y f, x ≤ y ∧ nextRaw vm t previous = .ok (some f) ∧ t.fieldAt y = some f ∧
      ∀ z, x ≤ z → z < y → t.fieldAt z = none := by
  rcases hx with ⟨rfl, rfl⟩ | ⟨r, hr, hx⟩
  · have hres : resumeAt vm t .nil = .ok (0, 0) := rfl
    exact nextRaw_spec hsize hres (.inl ⟨rfl, Nat.zero_le _⟩)
  · obtain ⟨a, h, hres, rfl, hah⟩ := (wf.resumeAt_eq hsize hsees hr).1 x hx
    exact nextRaw_spec hsize hres hah

/-! ### Keys and positions -/

theorem keyAt_of_lt {t : Table} {x : Nat} (h : x < t.array.length) :
    t.keyAt x = some (.integer (Int64.ofNat (x + 1))) := by
  unfold keyAt
  rw [if_pos h]

theorem keyAt_add {t : Table} {p : Nat} :
    t.keyAt (t.array.length + p) = (t.entry p).map fun e => e.1.rawKey := by
  unfold keyAt
  rw [if_neg (by omega), Nat.add_sub_cancel_left]

/-- A field is live in its array slot or in its bucket. -/
theorem liveAt_cases {t : Table} {x : Nat} {f : Value × Value} (h : t.fieldAt x = some f) :
    (x < t.array.length ∧ t.slot x = some f.2 ∧ f.1 = .integer (Int64.ofNat (x + 1))) ∨
    ∃ p k, x = t.array.length + p ∧ t.entry p = some (k, f.2) ∧ f.2 ≠ .nil ∧
      f.1 = k.asValue := by
  by_cases hx : x < t.array.length
  · rw [fieldAt_of_lt hx, Option.map_eq_some_iff] at h
    obtain ⟨v, hv, rfl⟩ := h
    exact .inl ⟨hx, hv, rfl⟩
  · obtain ⟨p, rfl⟩ := Nat.exists_eq_add_of_le (not_lt.mp hx)
    obtain ⟨k, he, hv, hk⟩ := fieldAt_add.mp h
    exact .inr ⟨p, k, rfl, he, hv, hk⟩

/-- The key of a returned field is in the class of its position. -/
theorem Sees.keyAt_eq {t : Table} {vm : Vm} (hsees : t.Sees vm) {x : Nat} {f : Value × Value}
    (h : t.fieldAt x = some f) : RawKey.ofValue vm f.1 = t.keyAt x := by
  rcases liveAt_cases h with ⟨hx, -, hf⟩ | ⟨p, k, rfl, he, hv, hf⟩
  · rw [keyAt_of_lt hx, hf]
    rfl
  · rw [keyAt_add, he, hf, hsees.live he hv]
    rfl

theorem keyAt_isSome {t : Table} {x : Nat} (h : t.LiveAt x) : ∃ r, t.keyAt x = some r := by
  obtain ⟨f, hf⟩ := Option.isSome_iff_exists.mp h
  rcases liveAt_cases hf with ⟨hx, -⟩ | ⟨p, k, rfl, he, -⟩
  · exact ⟨_, keyAt_of_lt hx⟩
  · exact ⟨k.rawKey, by rw [keyAt_add, he]; rfl⟩

/-- The class of a live position holds the value there. -/
theorem holds_iff_fieldAt {t : Table} (wf : t.Wf) (hsize : t.Sized) {r : RawKey} {v : Value} :
    t.Holds r v ↔ ∃ x f, t.keyAt x = some r ∧ t.fieldAt x = some f ∧ f.2 = v := by
  have hlen := hsize.lt
  constructor
  · rintro ⟨hv, ⟨i, hi, hs⟩ | ⟨p, k, he, hk⟩⟩
    · have hlt := lt_of_slot hs
      refine ⟨i, (.integer (Int64.ofNat (i + 1)), v), ?_, ?_, rfl⟩
      · rw [keyAt_of_lt hlt, (eq_integer_iff (by omega)).mpr hi]
      · rw [fieldAt_of_lt hlt, hs]
        rfl
    · refine ⟨t.array.length + p, (k.asValue, v), ?_, fieldAt_add.mpr ⟨k, he, hv, rfl⟩, rfl⟩
      rw [keyAt_add, he, Option.map_some, hk]
  · rintro ⟨x, f, hkey, hf, rfl⟩
    rcases liveAt_cases hf with ⟨hx, hs, -⟩ | ⟨p, k, rfl, he, hv, -⟩
    · rw [keyAt_of_lt hx, Option.some.injEq] at hkey
      exact ⟨fun h => wf.slot_ne (h ▸ hs), .inl ⟨x, (eq_integer_iff (by omega)).mp hkey, hs⟩⟩
    · rw [keyAt_add, he, Option.map_some, Option.some.injEq] at hkey
      exact ⟨hv, .inr ⟨p, k, he, hkey⟩⟩

/-- A class is live at one position only. -/
theorem Wf.liveAt_inj {t : Table} (wf : t.Wf) (hsize : t.Sized) {x y : Nat} {r : RawKey}
    (hx : t.LiveAt x) (hy : t.LiveAt y) (hkx : t.keyAt x = some r) (hky : t.keyAt y = some r) :
    x = y := by
  have hlen := hsize.lt
  obtain ⟨f, hf⟩ := Option.isSome_iff_exists.mp hx
  obtain ⟨g, hg⟩ := Option.isSome_iff_exists.mp hy
  rcases liveAt_cases hf with ⟨hx, hs, -⟩ | ⟨p, k, rfl, he, hv, -⟩ <;>
    rcases liveAt_cases hg with ⟨hy, hs', -⟩ | ⟨q, k', rfl, he', hv', -⟩
  · rw [keyAt_of_lt hx, Option.some.injEq, eq_integer_iff (by omega)] at hkx
    rw [keyAt_of_lt hy, Option.some.injEq, eq_integer_iff (by omega)] at hky
    simpa [hkx] using hky
  · rw [keyAt_of_lt hx, Option.some.injEq, eq_integer_iff (by omega)] at hkx
    rw [keyAt_add, he', Option.map_some, Option.some.injEq] at hky
    exact absurd (wf.exclusive hs he' (hky ▸ hkx)) hv'
  · rw [keyAt_add, he, Option.map_some, Option.some.injEq] at hkx
    rw [keyAt_of_lt hy, Option.some.injEq, eq_integer_iff (by omega)] at hky
    exact absurd (wf.exclusive hs' he (hkx ▸ hky)) hv
  · rw [keyAt_add, he, Option.map_some, Option.some.injEq] at hkx
    rw [keyAt_add, he', Option.map_some, Option.some.injEq] at hky
    rw [wf.distinct he he' (hkx.trans hky.symm)]

/-- The bucket of a class. -/
theorem Wf.findIdx_eq {t : Table} (wf : t.Wf) {r : RawKey} {p : Nat} {k : CanonicalKey} {v : Value}
    (he : t.entry p = some (k, v)) (hk : k.rawKey = r) :
    (t.hash.findIdx? fun b => b.any fun e => decide (e.1.rawKey = r)) = some p := by
  have hget : t.hash[p]? = some (some (k, v)) := Option.join_eq_some_iff.mp he
  obtain ⟨hlt, hgetp⟩ := List.getElem?_eq_some_iff.mp hget
  rw [List.findIdx?_eq_some_iff_getElem]
  refine ⟨hlt, by simp [hgetp, hk], fun q hq => ?_⟩
  have hql : q < t.hash.length := by omega
  cases hb : t.hash[q] with
  | none => simp
  | some e =>
    have he' : t.entry q = some (e.1, e.2) := by
      rw [entry, List.getElem?_eq_getElem hql, hb]
      rfl
    have hne : e.1.rawKey ≠ r := by
      intro h
      have := wf.distinct he' he (h.trans hk.symm)
      omega
    simpa using hne

theorem findIdx_eq_none {t : Table} {r : RawKey}
    (h : ∀ {p k v}, t.entry p = some (k, v) → k.rawKey ≠ r) :
    (t.hash.findIdx? fun b => b.any fun e => decide (e.1.rawKey = r)) = none := by
  rw [List.findIdx?_eq_none_iff]
  intro b hb
  cases b with
  | none => rfl
  | some e =>
    obtain ⟨p, hp⟩ := entry_of_mem hb
    simpa using h hp

/-- Behind a live field, `next` resumes at the next position. -/
theorem Wf.resume_of_live {t : Table} (wf : t.Wf) (hsize : t.Sized) {x : Nat} {r : RawKey}
    (hx : t.LiveAt x) (hkey : t.keyAt x = some r) : t.resume r = some (x + 1) := by
  have hlen := hsize.lt
  obtain ⟨f, hf⟩ := Option.isSome_iff_exists.mp hx
  unfold resume
  simp only
  rcases liveAt_cases hf with ⟨hx, hs, -⟩ | ⟨p, k, rfl, he, hv, -⟩
  · rw [keyAt_of_lt hx, Option.some.injEq, eq_integer_iff (by omega)] at hkey
    rw [hkey, Option.filter_some, if_pos (by simpa using hx)]
    simp [hs]
  · rw [keyAt_add, he, Option.map_some, Option.some.injEq] at hkey
    rw [wf.findIdx_eq he hkey]
    cases hi : r.arrayIndex.filter fun i => decide (i < t.array.length) with
    | none => rfl
    | some i =>
      have hri := (Option.filter_eq_some_iff.mp hi).1
      have hnone : t.slot i = none := by
        cases hs : t.slot i with
        | none => rfl
        | some w => exact absurd (wf.exclusive hs he (hkey ▸ hri)) hv
      simp [hnone]

theorem lt_of_liveAt {t : Table} {x : Nat} (h : t.LiveAt x) :
    x < t.array.length + t.hash.length := by
  obtain ⟨f, hf⟩ := Option.isSome_iff_exists.mp h
  rcases liveAt_cases hf with ⟨hx, -⟩ | ⟨p, k, rfl, he, -⟩
  · omega
  · have := lt_of_entry he
    omega

theorem liveAt_slot {t : Table} {i : Nat} (h : i < t.array.length) :
    t.LiveAt i ↔ (t.slot i).isSome = true := by
  unfold LiveAt
  rw [fieldAt_of_lt h, Option.isSome_map]

theorem keyAt_add_eq_some {t : Table} {p : Nat} {r : RawKey} :
    t.keyAt (t.array.length + p) = some r ↔ ∃ k v, t.entry p = some (k, v) ∧ k.rawKey = r := by
  rw [keyAt_add, Option.map_eq_some_iff]
  simp only [Prod.exists]

/-- Behind a key that has a bucket and no live array slot, `next` resumes behind the bucket. -/
theorem Wf.resume_of_bucket {t : Table} (wf : t.Wf) (hsize : t.Sized) {p : Nat} {r : RawKey}
    (hkey : t.keyAt (t.array.length + p) = some r)
    (hslot : ∀ i < t.array.length, t.keyAt i = some r → ¬ t.LiveAt i) :
    t.resume r = some (t.array.length + p + 1) := by
  have hlen := hsize.lt
  obtain ⟨k, v, he, hk⟩ := keyAt_add_eq_some.mp hkey
  unfold resume
  simp only
  rw [wf.findIdx_eq he hk]
  cases hi : r.arrayIndex.filter fun i => decide (i < t.array.length) with
  | none => rfl
  | some i =>
    obtain ⟨hri, hin⟩ := Option.filter_eq_some_iff.mp hi
    have hin' : i < t.array.length := by simpa using hin
    have hki : t.keyAt i = some r := by
      rw [keyAt_of_lt hin', (eq_integer_iff (by omega)).mpr hri]
    have hdead := hslot i hin' hki
    rw [liveAt_slot hin'] at hdead
    simp only [if_neg hdead]

/-- Behind a key that has an array slot and no bucket, `next` resumes behind the slot. -/
theorem resume_of_slot {t : Table} (hsize : t.Sized) {i : Nat} {r : RawKey}
    (hi : i < t.array.length) (hkey : t.keyAt i = some r)
    (hbucket : ∀ p, t.keyAt (t.array.length + p) ≠ some r) : t.resume r = some (i + 1) := by
  have hlen := hsize.lt
  rw [keyAt_of_lt hi, Option.some.injEq, eq_integer_iff (by omega)] at hkey
  unfold resume
  simp only
  rw [findIdx_eq_none fun he hk => hbucket _ (keyAt_add_eq_some.mpr ⟨_, _, he, hk⟩), hkey,
    Option.filter_some, if_pos (by simpa using hi)]
  simp

/-! ### Edits of existing fields -/

/-- `t'` has the keys of `t` at the same positions and no new live field. -/
structure Edited (t t' : Table) : Prop where
  array : t'.array.length = t.array.length
  hash : t'.hash.length = t.hash.length
  key : ∀ x, t'.keyAt x = t.keyAt x
  live : ∀ {x}, t'.LiveAt x → t.LiveAt x

theorem Edited.refl (t : Table) : Edited t t := ⟨rfl, rfl, fun _ => rfl, id⟩

theorem Edited.trans {t t' t'' : Table} (h : Edited t t') (h' : Edited t' t'') : Edited t t'' :=
  ⟨h'.array.trans h.array, h'.hash.trans h.hash, fun x => (h'.key x).trans (h.key x),
    fun hx => h.live (h'.live hx)⟩

/-- Writing a live array slot. -/
theorem edited_slot {t t' : Table} {i : Nat} {w : Value} {o : Option Value}
    (hs : t.slot i = some w) (harray : t'.array = t.array.set i o) (hhash : t'.hash = t.hash) :
    Edited t t' := by
  have hlen : t'.array.length = t.array.length := by rw [harray, List.length_set]
  have hentry : ∀ p, t'.entry p = t.entry p := fun p => by simp [entry, hhash]
  have hi := lt_of_slot hs
  refine ⟨hlen, by rw [hhash], fun x => ?_, fun {x} hx => ?_⟩
  · simp [keyAt, hlen, hentry]
  · by_cases hxi : x = i
    · subst hxi
      simp [LiveAt, fieldAt_of_lt hi, hs]
    · unfold LiveAt fieldAt at hx ⊢
      have hslot : t'.slot x = t.slot x := by
        rw [slot, harray, List.getElem?_set_ne (Ne.symm hxi)]
        rfl
      simpa only [hlen, hentry, hslot] using hx

/-- Rewriting a live bucket under a key of the same class. -/
theorem edited_entry {t t' : Table} {p : Nat} {k k' : CanonicalKey} {w v : Value}
    (he : t.entry p = some (k, w)) (hw : w ≠ .nil) (hk : k'.rawKey = k.rawKey)
    (harray : t'.array = t.array) (hhash : t'.hash = t.hash.set p (some (k', v))) :
    Edited t t' := by
  have hp := lt_of_entry he
  have hentry : ∀ q, t'.entry q = if q = p then some (k', v) else t.entry q := by
    intro q
    rw [← entry_set t hp]
    simp [entry, hhash]
  have hslot : ∀ i, t'.slot i = t.slot i := fun i => by simp [slot, harray]
  refine ⟨by rw [harray], by rw [hhash, List.length_set], fun x => ?_, fun {x} hx => ?_⟩
  · unfold keyAt
    rw [harray, hentry]
    split
    · rfl
    · split
      · rename_i hq
        rw [hq, he, Option.map_some, Option.map_some, hk]
      · rfl
  · by_cases hxp : x = t.array.length + p
    · subst hxp
      have hfield : t.fieldAt (t.array.length + p) = some (k.asValue, w) :=
        fieldAt_add.mpr ⟨k, he, hw, rfl⟩
      simp [LiveAt, hfield]
    · unfold LiveAt fieldAt at hx ⊢
      rw [harray, hslot, hentry] at hx
      split at hx
      · rename_i hlt
        rwa [if_pos hlt]
      · rename_i hlt
        rw [if_neg hlt]
        rwa [if_neg (by omega)] at hx

variable [DefaultHasher]

/-- A write to an existing field is an edit. -/
theorem Wf.prepareSet_existing {t : Table} (wf : t.Wf) {key : CanonicalKey} (hkey : key.Storable)
    {w : Value} (hold : t.Holds key.rawKey w) (value : Value) :
    Triple (fun _ => True) (t.prepareSet key value) (fun m _ => Edited t (m.apply t))
      (fun _ _ => True) := by
  unfold prepareSet
  cases hin : key.arrayIndex.filter fun index => (t.slot index).isSome with
  | some i =>
    obtain ⟨-, hsome⟩ := Option.filter_eq_some_iff.mp hin
    obtain ⟨u, hu⟩ := Option.isSome_iff_exists.mp hsome
    exact Triple.return_of fun _ _ => edited_slot hu rfl rfl
  | none =>
    simp only
    cases hf : t.findHash key with
    | some p =>
      obtain ⟨k, u, he, hk, hu⟩ := wf.findHash_eq_some hkey hf
      refine Triple.ite (fun hnil => ?_) (fun hnil => ?_)
      · subst hnil
        refine Triple.bind (key.makeDead_spec.conseq (fun _ h => h) (fun _ _ h => h)
          (fun _ _ _ => trivial)) fun dead => Triple.return_of fun _ hd => ?_
        exact edited_entry he hu (hd.1.trans hk.symm) rfl rfl
      · refine Triple.return_of fun _ _ => edited_entry (v := value) he hu rfl ?_ ?_
        · simp [PreparedTableMutation.apply, hnil, bumpMutationVersion]
        · have hget : t.hash[p]? = some (some (k, u)) := Option.join_eq_some_iff.mp he
          simp [PreparedTableMutation.apply, hnil, bumpMutationVersion, List.modify_eq_set_getElem?,
            hget]
    | none =>
      -- then the field is nowhere
      obtain ⟨hw, ⟨i, hi, hs⟩ | ⟨p, k, he, hk⟩⟩ := hold
      · rw [← CanonicalKey.arrayIndex_eq_rawKey] at hi
        have := Option.filter_eq_none_iff.mp hin i hi
        rw [hs] at this
        exact absurd this (by simp)
      · exact absurd (wf.findHash_eq_none hkey hf he hk) hw

/-- What a successful raw write has done. -/
theorem rawSet_eq_ok {t t' : Table} {op : RawSet}
    (h : (rawSet op.view t op.key op.value op.ledger).1 = .ok t') :
    ∃ k m l₁ l₂ l₃, canonicalKey op.view op.key l₁ = (.ok (some k), l₂) ∧
      t.prepareSet k op.value l₂ = (.ok m, l₃) ∧ m.apply t = t' := by
  rcases hrun : rawSet op.view t op.key op.value op.ledger with ⟨res, l'⟩
  rw [hrun] at h
  obtain rfl : res = .ok t' := h
  obtain ⟨m, l₃, hprep, hpub⟩ := Prog.bind_eq_ok hrun
  obtain ⟨happ, -⟩ : m.apply t = t' ∧ l₃ = l' := by simpa using hpub
  unfold prepareRawSet at hprep
  split at hprep
  · exact absurd hprep (by simp)
  · split at hprep
    · exact absurd hprep (by simp)
    · obtain ⟨k, l₂, hkey, hset⟩ := Prog.bind_eq_ok hprep
      cases k with
      | none => exact absurd hset (by simp)
      | some k => exact ⟨k, m, _, l₂, l₃, hkey, hset, happ⟩

theorem Sized.rawSet {t t' : Table} (hsize : t.Sized) {op : RawSet}
    (h : (rawSet op.view t op.key op.value op.ledger).1 = .ok t') : t'.Sized := by
  obtain ⟨k, m, l₁, l₂, l₃, -, hset, rfl⟩ := rawSet_eq_ok h
  exact ((t.prepareSet_fits k op.value).ok trivial hset).sized hsize

theorem Wf.rawSet_existing {t t' : Table} (wf : t.Wf) {op : RawSet} {r : RawKey} {w : Value}
    (hr : RawKey.ofValue op.view op.key = some r) (hold : t.Holds r w)
    (h : (rawSet op.view t op.key op.value op.ledger).1 = .ok t') : Edited t t' := by
  obtain ⟨k, m, l₁, l₂, l₃, hkey, hset, rfl⟩ := rawSet_eq_ok h
  obtain ⟨hclass, hstorable⟩ := (canonicalKey_spec op.view op.key).ok trivial hkey
  obtain rfl : r = k.rawKey := by simpa [hclass] using hr.symm
  exact (wf.prepareSet_existing (hstorable k rfl) hold op.value).ok trivial hset

end Table

end RivetLua.Runtime
