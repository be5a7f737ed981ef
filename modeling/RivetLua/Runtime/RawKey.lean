import RivetLua.Runtime.Access

namespace RivetLua.Runtime

open RivetLua.Core StateProg

/-!
# Runtime — keys up to primitive equality

* `RawKey` — the class of a key under Lua's primitive equality;
* `CanonicalKey.eq_iff_rawKey` — comparing canonical keys is comparing classes;
* `RawKey.ofValue` — the class of a Lua value, `canonicalKey_spec` — it is the class of the
  canonical key;
* `rawEqual_eq_ofValue` — primitive equality of Lua values is equality of classes.
-/

/-- A key up to primitive equality. -/
inductive RawKey where
  | integer (i : Int64)
  | real (q : ℚ)
  | infinity (bits : BitVec 64)
  | boolean (b : Bool)
  | lightUserdata (address : Nat)
  | cFunction (id : HostFunctionId)
  | string (bytes : List UInt8)
  | object (id : ObjectId)
  deriving DecidableEq

/-- The class of a float key. -/
def RawKey.ofFloat (x : F64) : RawKey := if x.isFinite then .real x.toRat else .infinity x.bits

namespace CanonicalKey

/-- The class of a canonical key. -/
def rawKey : CanonicalKey → RawKey
  | .integer i => .integer i
  | .float x => RawKey.ofFloat x
  | .boolean b => .boolean b
  | .lightUserdata a => .lightUserdata a
  | .cFunction id => .cFunction id
  | .shortString _ bytes | .byteString _ bytes _ | .deadShortString _ bytes => .string bytes
  | .object _ id => .object id

/-- A key `canonicalKey` can produce: a float key is no NaN and no `i64`. -/
def Storable : CanonicalKey → Prop
  | .float x => x.isNan = false ∧ x.toI64? = none
  | _ => True

end CanonicalKey

/-- Floats that are not NaN are equal exactly when they are in the same class. -/
theorem F64.eq_iff_ofFloat {x y : F64} (hx : x.isNan = false) (hy : y.isNan = false) :
    x.eq y = true ↔ RawKey.ofFloat x = RawKey.ofFloat y := by
  unfold F64.eq RawKey.ofFloat
  rw [hx, hy]
  cases hfx : x.isFinite <;> cases hfy : y.isFinite <;> simp
  · -- an infinity and a finite number have different bits
    intro h
    have : x = y := by cases x; cases y; simpa using h
    rw [this, hfy] at hfx
    exact absurd hfx (by simp)
  · intro h
    have : x = y := by cases x; cases y; simpa using h
    rw [this, hfy] at hfx
    exact absurd hfx (by simp)

/-- Comparing canonical keys is comparing their classes. -/
theorem CanonicalKey.eq_iff_rawKey {a b : CanonicalKey} (ha : a.Storable) (hb : b.Storable) :
    a.eq b = true ↔ a.rawKey = b.rawKey := by
  have hof : ∀ x, (∃ q, RawKey.ofFloat x = .real q) ∨ ∃ w, RawKey.ofFloat x = .infinity w := by
    intro x
    unfold RawKey.ofFloat
    split
    · exact .inl ⟨_, rfl⟩
    · exact .inr ⟨_, rfl⟩
  cases a with
  | float x =>
    cases b with
    | float y =>
      simp only [CanonicalKey.eq, stringBytes, rawKey]
      exact F64.eq_iff_ofFloat ha.1 hb.1
    | _ => rcases hof x with ⟨q, h⟩ | ⟨q, h⟩ <;> simp [CanonicalKey.eq, stringBytes, rawKey, h]
  | _ =>
    cases b with
    | float y =>
      rcases hof y with ⟨q, h⟩ | ⟨q, h⟩ <;> simp [CanonicalKey.eq, stringBytes, rawKey, h]
    | _ => simp [CanonicalKey.eq, stringBytes, rawKey]

/-- The array index of a class. -/
def RawKey.arrayIndex : RawKey → Option Nat
  | .integer i => if 0 < i.toInt then some (i.toInt.toNat - 1) else none
  | _ => none

theorem CanonicalKey.arrayIndex_eq_rawKey (k : CanonicalKey) :
    k.arrayIndex = k.rawKey.arrayIndex := by
  cases k with
  | float x =>
    simp only [arrayIndex, rawKey, RawKey.ofFloat]
    split <;> rfl
  | _ => rfl

/-- The class of an array slot's key. -/
theorem RawKey.arrayIndex_eq_some {r : RawKey} {a : Nat} (h : r.arrayIndex = some a) :
    ∃ i, r = .integer i ∧ i.toInt = a + 1 := by
  cases r with
  | integer i =>
    simp only [arrayIndex] at h
    split at h
    · rename_i hpos
      simp only [Option.some.injEq] at h
      exact ⟨i, rfl, by omega⟩
    · exact absurd h (by simp)
  | _ => simp [arrayIndex] at h

/-- An array slot belongs to one key only. -/
theorem RawKey.arrayIndex_inj {r s : RawKey} {a : Nat} (hr : r.arrayIndex = some a)
    (hs : s.arrayIndex = some a) : r = s := by
  obtain ⟨i, rfl, hi⟩ := arrayIndex_eq_some hr
  obtain ⟨j, rfl, hj⟩ := arrayIndex_eq_some hs
  rw [Int64.toInt_inj.mp (hi.trans hj.symm)]

/-- The key of a deleted field is in the class of the field. -/
theorem CanonicalKey.makeDead_spec (k : CanonicalKey) :
    Triple (fun _ => True) k.makeDead
      (fun k' _ => k'.rawKey = k.rawKey ∧ (k.Storable → k'.Storable))
      (fun e _ => e ≠ .ledgerInvariant) := by
  cases k with
  | byteString source bytes external =>
    cases external with
    | false => exact fun _ _ => ⟨rfl, id⟩
    | true =>
      refine Triple.bind (reserveVec_spec _ _ _) fun _ => ?_
      exact fun _ _ => ⟨rfl, fun _ => trivial⟩
  | shortString source bytes => exact fun _ _ => ⟨rfl, fun _ => trivial⟩
  | _ => exact fun _ _ => ⟨rfl, id⟩

/-! ### The class of a Lua value -/

/-- The class of a number, absent for NaN: an integral float is its integer. -/
def RawKey.ofNumber : Number → Option RawKey
  | .integer i => some (.integer i)
  | .float x =>
    if x.isNan then none
    else
      match x.toI64? with
      | some i => some (.integer i)
      | none => some (RawKey.ofFloat x)

/-- The class of a Lua value in a heap; nil, NaN and values foreign to the heap have none. -/
def RawKey.ofValue (vm : Vm) : Value → Option RawKey
  | .nil => none
  | .integer i => RawKey.ofNumber (.integer i)
  | .float x => RawKey.ofNumber (.float x)
  | .boolean b => some (.boolean b)
  | .lightUserdata a => some (.lightUserdata a)
  | .cFunction id => if id.vm ≠ vm.id then none else some (.cFunction id)
  | .object o =>
    match vm.checkedSlot o with
    | .error _ => none
    | .ok s =>
      match s.object.payload with
      | .byteString bytes _ => some (.string bytes)
      | _ => o.identity.map RawKey.object

/-- The canonical key of a value is storable and in the class of the value. -/
theorem canonicalKey_spec (vm : Vm) (value : Value) :
    Triple (fun _ => True) (canonicalKey vm value)
      (fun k _ => RawKey.ofValue vm value = k.map CanonicalKey.rawKey ∧ ∀ k' ∈ k, k'.Storable)
      (fun e _ => e ≠ .ledgerInvariant) := by
  cases value with
  | cFunction id =>
    refine Triple.ite (fun _ _ _ => by simp [Prog.fail]) (fun h _ _ => ?_)
    exact ⟨by simp [RawKey.ofValue, h, CanonicalKey.rawKey], by simp [CanonicalKey.Storable]⟩
  | float x =>
    unfold canonicalKey
    simp only [RawKey.ofValue, RawKey.ofNumber]
    refine Triple.ite (fun h _ _ => ⟨by simp [h], by simp⟩) (fun h => ?_)
    rw [if_neg h]
    cases hx : x.toI64? with
    | some i => exact fun _ _ => ⟨rfl, by simp [CanonicalKey.Storable]⟩
    | none => exact fun _ _ => ⟨rfl, by simpa [CanonicalKey.Storable, hx] using h⟩
  | object o =>
    unfold canonicalKey
    simp only [RawKey.ofValue, Vm.objectKind, Vm.byteString]
    cases hc : vm.checkedSlot o with
    | error e =>
      intro _ _
      rcases Vm.checkedSlot_eq_error hc with rfl | rfl <;>
        exact VmError.noConfusion
    | ok s =>
      obtain ⟨id, hid, -⟩ := Vm.checkedSlot_eq_ok.mp hc
      cases hp : s.object.payload with
      | byteString bytes external =>
        simp only [Except.map, hp, HeapPayload.objectKind]
        show Triple _ (if bytes.length ≤ inlineKeyLength then _ else _) _ _
        refine Triple.ite (fun _ _ _ => ⟨rfl, by simp [CanonicalKey.Storable]⟩) (fun _ => ?_)
        refine Triple.bind (reserveVec_spec _ _ _) fun _ => ?_
        refine Triple.bind (reserveVec_spec _ _ _) fun _ _ _ => ?_
        exact ⟨rfl, by simp [CanonicalKey.Storable]⟩
      | node kind edges =>
        intro _ _
        cases kind <;> simp [Except.map, Prog.ofExcept, hp, HeapPayload.objectKind,
          NodeKind.objectKind, Prog.bind_apply, Prog.pure, Prog.ofOption, hid,
          CanonicalKey.rawKey, CanonicalKey.Storable]
      | _ =>
        intro _ _
        simp [Except.map, Prog.ofExcept, hp, HeapPayload.objectKind, Prog.bind_apply, Prog.pure,
          Prog.ofOption, hid, CanonicalKey.rawKey, CanonicalKey.Storable]
  | nil => exact fun _ _ => ⟨rfl, by simp⟩
  | _ => exact fun _ _ => ⟨rfl, by simp [CanonicalKey.Storable]⟩

/-- The canonical key stands for the value, or for the integer an integral float denotes. -/
theorem canonicalKey_asValue (vm : Vm) (value : Value) :
    Triple (fun _ => True) (canonicalKey vm value)
      (fun k _ => ∀ k' ∈ k, k'.asValue = value ∨ ∃ i, k' = .integer i) (fun _ _ => True) := by
  cases value with
  | cFunction id => exact Triple.ite (fun _ _ _ => trivial) (fun _ => Triple.return_of (by simp [CanonicalKey.asValue]))
  | float x =>
    unfold canonicalKey
    refine Triple.ite (fun _ => Triple.return_of (by simp)) (fun _ => ?_)
    cases x.toI64? with
    | some i => exact Triple.return_of (by simp)
    | none => exact Triple.return_of (by simp [CanonicalKey.asValue])
  | object o =>
    refine Triple.bind Triple.top fun kind => Triple.ite (fun _ => ?_) (fun _ => ?_)
    · refine Triple.bind Triple.top fun x => Triple.ite (fun _ => ?_) (fun _ => ?_)
      · exact Triple.return_of (by simp [CanonicalKey.asValue])
      · refine Triple.bind Triple.top fun _ => Triple.bind Triple.top fun _ => ?_
        exact Triple.return_of (by simp [CanonicalKey.asValue])
    · exact Triple.bind Triple.top fun _ => Triple.return_of (by simp [CanonicalKey.asValue])
  | _ => exact Triple.return_of (by simp [CanonicalKey.asValue])

/-- The class of a float is that of an integer exactly when it denotes the integer. -/
theorem RawKey.ofNumber_float {x : F64} {r : RawKey} (h : RawKey.ofNumber (.float x) = some r) :
    x.isNan = false ∧ ((∃ i, x.toI64? = some i ∧ r = .integer i) ∨
      (x.toI64? = none ∧ r = RawKey.ofFloat x)) := by
  unfold ofNumber at h
  simp only at h
  split at h
  · exact absurd h (by simp)
  · rename_i hn
    refine ⟨by simpa using hn, ?_⟩
    cases hx : x.toI64? with
    | some i => exact .inl ⟨i, rfl, by simpa [hx] using h.symm⟩
    | none => exact .inr ⟨rfl, by simpa [hx] using h.symm⟩

theorem RawKey.ofFloat_ne_integer (x : F64) (i : Int64) : RawKey.ofFloat x ≠ .integer i := by
  unfold ofFloat
  split <;> simp

/-- Numbers are equal exactly when they are in the same class. -/
theorem equal_iff_ofNumber {a b : Number} {r s : RawKey} (ha : RawKey.ofNumber a = some r)
    (hb : RawKey.ofNumber b = some s) : equal a b = true ↔ r = s := by
  -- an integer against a float, in the order of `compareIntegerFloat`
  have hmixed : ∀ {i : Int64} {x : F64} {s : RawKey}, RawKey.ofNumber (.float x) = some s →
      (compareIntegerFloat i x = some .eq ↔ RawKey.integer i = s) := by
    intro i x s hx
    rw [compareIntegerFloat_eq_some_eq]
    obtain ⟨-, ⟨j, hj, rfl⟩ | ⟨hj, rfl⟩⟩ := RawKey.ofNumber_float hx
    · simp [hj, eq_comm]
    · simp [hj, (RawKey.ofFloat_ne_integer x i).symm]
  cases a with
  | integer i =>
    obtain rfl : RawKey.integer i = r := by simpa [RawKey.ofNumber] using ha
    cases b with
    | integer j =>
      obtain rfl : RawKey.integer j = s := by simpa [RawKey.ofNumber] using hb
      simp [equal, Core.compare, Int64.toInt_inj]
    | float x => simpa [equal, Core.compare] using hmixed hb
  | float x =>
    cases b with
    | integer j =>
      obtain rfl : RawKey.integer j = s := by simpa [RawKey.ofNumber] using hb
      have hswap : (compareIntegerFloat j x).map Ordering.swap = some .eq ↔
          compareIntegerFloat j x = some .eq := by
        cases compareIntegerFloat j x with
        | none => simp
        | some o => cases o <;> simp
      have := hswap.trans (hmixed ha)
      rw [@eq_comm _ r, ← this]
      simp [equal, Core.compare]
    | float y =>
      obtain ⟨hnx, hx⟩ := RawKey.ofNumber_float ha
      obtain ⟨hny, hy⟩ := RawKey.ofNumber_float hb
      have heq : equal (.float x) (.float y) = true ↔ x.eq y = true := by
        simp [equal, Core.compare, F64.partialCmp_eq_some_eq]
      rw [heq]
      rcases hx with ⟨i, hi, rfl⟩ | ⟨hi, rfl⟩ <;> rcases hy with ⟨j, hj, rfl⟩ | ⟨hj, rfl⟩
      · constructor
        · intro h
          have := F64.toI64?_congr h
          rw [hi, hj, Option.some.injEq] at this
          rw [this]
        · intro h
          obtain rfl : i = j := by simpa using h
          obtain ⟨hfx, hqx⟩ := (F64.toI64?_eq_some_iff x i).mp hi
          obtain ⟨hfy, hqy⟩ := (F64.toI64?_eq_some_iff y i).mp hj
          simp [F64.eq, hnx, hny, hfx, hfy, hqx, hqy]
      · constructor
        · intro h
          have := F64.toI64?_congr h
          rw [hi, hj] at this
          exact absurd this (by simp)
        · intro h
          exact absurd h.symm (RawKey.ofFloat_ne_integer y i)
      · constructor
        · intro h
          have := F64.toI64?_congr h
          rw [hi, hj] at this
          exact absurd this (by simp)
        · intro h
          exact absurd h (RawKey.ofFloat_ne_integer x j)
      · exact F64.eq_iff_ofFloat hnx hny

/-- A value with a class may be compared. -/
theorem checkComparable_of_ofValue {vm : Vm} {a : Value} {r : RawKey}
    (h : RawKey.ofValue vm a = some r) : checkComparable vm a = .ok () := by
  cases a with
  | object o =>
    simp only [RawKey.ofValue] at h
    simp only [checkComparable, Vm.objectKind]
    cases hc : vm.checkedSlot o with
    | error e => rw [hc] at h; exact absurd h (by simp)
    | ok s => rfl
  | cFunction id =>
    simp only [RawKey.ofValue] at h
    simp only [checkComparable]
    split at h
    · exact absurd h (by simp)
    · rename_i hid
      rw [if_neg hid]
  | _ => rfl

/-- The class of an object: its bytes when it is a string, its identity otherwise. -/
theorem RawKey.ofValue_object {vm : Vm} {o : ObjectRef} {r : RawKey}
    (h : RawKey.ofValue vm (.object o) = some r) :
    ∃ x, vm.checkedSlot o = .ok x ∧
      ((∃ bytes external, vm.byteString o = .ok (bytes, external) ∧ r = .string bytes) ∨
        (∃ id, vm.byteString o = .error .wrongObjectType ∧ o.identity = some id ∧
          r = .object id)) := by
  simp only [ofValue] at h
  cases hc : vm.checkedSlot o with
  | error e => rw [hc] at h; exact absurd h (by simp)
  | ok x =>
    obtain ⟨id, hid, -⟩ := Vm.checkedSlot_eq_ok.mp hc
    refine ⟨x, rfl, ?_⟩
    rw [hc] at h
    unfold Vm.byteString
    rw [hc]
    cases hp : x.object.payload with
    | byteString bytes external =>
      exact .inl ⟨bytes, external, by simp [hp], by simpa [hp] using h.symm⟩
    | _ => exact .inr ⟨id, by simp [hp], hid, by simpa [hp, hid] using h.symm⟩

theorem Vm.objectKind_of_byteString {vm : Vm} {o : ObjectRef} {x : List UInt8 × Bool}
    (h : vm.byteString o = .ok x) : vm.objectKind o = .ok .byteString := by
  unfold Vm.byteString at h
  unfold Vm.objectKind
  cases hc : vm.checkedSlot o with
  | error e => rw [hc] at h; exact absurd h (by simp)
  | ok s =>
    rw [hc] at h
    cases hp : s.object.payload with
    | byteString bytes external => simp [Except.map, hp, HeapPayload.objectKind]
    | _ => simp [hp] at h

theorem Vm.objectKind_of_wrongObjectType {vm : Vm} {o : ObjectRef}
    (h : vm.byteString o = .error .wrongObjectType) :
    ∃ kind, vm.objectKind o = .ok kind ∧ kind ≠ .byteString := by
  unfold Vm.byteString at h
  unfold Vm.objectKind
  cases hc : vm.checkedSlot o with
  | error e =>
    rw [hc] at h
    obtain rfl : e = .wrongObjectType := by simpa using h
    rcases Vm.checkedSlot_eq_error hc with h | h <;> exact absurd h (by simp)
  | ok s =>
    rw [hc] at h
    refine ⟨s.object.payload.objectKind, rfl, ?_⟩
    cases hp : s.object.payload with
    | byteString bytes external => simp [hp] at h
    | node kind edges => cases kind <;> simp [HeapPayload.objectKind, NodeKind.objectKind]
    | _ => simp [HeapPayload.objectKind]

/-- Is this the class of a number? -/
def RawKey.isNumber : RawKey → Bool
  | .integer _ | .real _ | .infinity _ => true
  | _ => false

theorem RawKey.isNumber_ofNumber (n : Number) {r : RawKey} (h : RawKey.ofNumber n = some r) :
    r.isNumber = true := by
  cases n with
  | integer i =>
    obtain rfl : RawKey.integer i = r := by simpa [ofNumber] using h
    rfl
  | float x =>
    obtain ⟨-, ⟨i, -, rfl⟩ | ⟨-, rfl⟩⟩ := ofNumber_float h
    · rfl
    · unfold ofFloat
      split <;> rfl

/-- The class tells numbers from other values. -/
theorem RawKey.isNumber_ofValue {vm : Vm} {a : Value} {r : RawKey}
    (h : RawKey.ofValue vm a = some r) : r.isNumber = a.number?.isSome := by
  cases a with
  | integer i => exact isNumber_ofNumber (.integer i) h
  | float x => exact isNumber_ofNumber (.float x) h
  | cFunction id =>
    simp only [ofValue] at h
    split at h
    · exact absurd h (by simp)
    · obtain rfl : RawKey.cFunction id = r := by simpa using h
      rfl
  | object o =>
    obtain ⟨-, -, ⟨bytes, -, -, rfl⟩ | ⟨id, -, -, rfl⟩⟩ := ofValue_object h <;> rfl
  | nil => exact absurd h (by simp [ofValue])
  | boolean b =>
    obtain rfl : RawKey.boolean b = r := by simpa [ofValue] using h
    rfl
  | lightUserdata p =>
    obtain rfl : RawKey.lightUserdata p = r := by simpa [ofValue] using h
    rfl

/-- The one value of a class that is neither a number's nor an object's. -/
def RawKey.value? : RawKey → Option Value
  | .boolean b => some (.boolean b)
  | .lightUserdata a => some (.lightUserdata a)
  | .cFunction id => some (.cFunction id)
  | _ => none

theorem RawKey.value?_ofValue {vm : Vm} {a : Value} {r : RawKey}
    (h : RawKey.ofValue vm a = some r) (hn : a.number? = none) :
    r.value? = if a.objectRef?.isSome then none else some a := by
  cases a with
  | cFunction id =>
    simp only [ofValue] at h
    split at h
    · exact absurd h (by simp)
    · obtain rfl : RawKey.cFunction id = r := by simpa using h
      rfl
  | object o =>
    obtain ⟨-, -, ⟨bytes, -, -, rfl⟩ | ⟨id, -, -, rfl⟩⟩ := ofValue_object h <;> rfl
  | boolean b =>
    obtain rfl : RawKey.boolean b = r := by simpa [ofValue] using h
    rfl
  | lightUserdata p =>
    obtain rfl : RawKey.lightUserdata p = r := by simpa [ofValue] using h
    rfl
  | nil => exact absurd h (by simp [ofValue])
  | _ => exact absurd hn (by simp [Value.number?])

/-- Only objects are in the classes of strings and objects. -/
theorem RawKey.exists_object {vm : Vm} {a : Value} {r : RawKey} (h : RawKey.ofValue vm a = some r)
    (hn : r.isNumber = false) (hv : r.value? = none) : ∃ o, a = .object o := by
  rw [isNumber_ofValue h] at hn
  have hnum : a.number? = none := by simpa using hn
  rw [value?_ofValue h hnum] at hv
  cases a <;> simp_all [Value.objectRef?]

/-- Structural equality decides the classes of values that are not both numbers and not both
    objects. -/
theorem eq_eq_ofValue {vm : Vm} {a b : Value} {r s : RawKey} (ha : RawKey.ofValue vm a = some r)
    (hb : RawKey.ofValue vm b = some s) (hnum : ¬ (a.number?.isSome ∧ b.number?.isSome))
    (hobj : ∀ x y, a = .object x → b ≠ .object y) : a.eq b = decide (r = s) := by
  have hstruct : a.eq b = decide (a = b) := by
    cases a <;> cases b <;> first | rfl | simp [Value.number?] at hnum
  rw [hstruct, decide_eq_decide]
  constructor
  · rintro rfl
    simpa [ha] using hb
  · rintro rfl
    have hsame := (RawKey.isNumber_ofValue ha).symm.trans (RawKey.isNumber_ofValue hb)
    have hna : a.number? = none := by
      cases h : a.number? with
      | none => rfl
      | some n => exact absurd ⟨by simp [h], by rw [← hsame, h]; rfl⟩ hnum
    have hnb : b.number? = none := by simpa [hna] using hsame.symm
    have hval := (RawKey.value?_ofValue ha hna).symm.trans (RawKey.value?_ofValue hb hnb)
    cases a <;> cases b <;> simp_all [Value.objectRef?]

/-- Equality of values that are not two objects decides their classes. -/
theorem primitiveEqual_eq_ofValue {vm : Vm} {a b : Value} {r s : RawKey}
    (ha : RawKey.ofValue vm a = some r) (hb : RawKey.ofValue vm b = some s)
    (hobj : ∀ x y, a = .object x → b ≠ .object y) :
    primitiveEqual a b = decide (r = s) := by
  have hof : ∀ {v : Value} {n : Number} {q : RawKey}, v.number? = some n →
      RawKey.ofValue vm v = some q → RawKey.ofNumber n = some q := by
    intro v n q hn hv
    cases v with
    | integer i => obtain rfl : Number.integer i = n := by simpa [Value.number?] using hn
                   exact hv
    | float x => obtain rfl : Number.float x = n := by simpa [Value.number?] using hn
                 exact hv
    | _ => simp [Value.number?] at hn
  unfold primitiveEqual
  cases hx : a.number? with
  | none => exact eq_eq_ofValue ha hb (by simp [hx]) hobj
  | some x =>
    cases hy : b.number? with
    | none => exact eq_eq_ofValue ha hb (by simp [hy]) hobj
    | some y =>
      simp only
      rw [Bool.eq_iff_iff, equal_iff_ofNumber (hof hx ha) (hof hy hb), decide_eq_true_iff]

/-- **Primitive equality is equality of classes.** -/
theorem rawEqual_eq_ofValue {vm : Vm} {a b : Value} {r s : RawKey}
    (ha : RawKey.ofValue vm a = some r) (hb : RawKey.ofValue vm b = some s) :
    rawEqual vm a b = .ok (decide (r = s)) := by
  unfold rawEqual
  rw [checkComparable_of_ofValue ha, checkComparable_of_ofValue hb]
  by_cases hobj : ∃ x y, a = .object x ∧ b = .object y
  · obtain ⟨x, y, rfl, rfl⟩ := hobj
    obtain ⟨sx, hsx, hx⟩ := RawKey.ofValue_object ha
    obtain ⟨sy, hsy, hy⟩ := RawKey.ofValue_object hb
    rcases hx with ⟨bx, ex, hbx, rfl⟩ | ⟨ix, hbx, hix, rfl⟩ <;>
      rcases hy with ⟨by', ey, hby, rfl⟩ | ⟨iy, hby, hiy, rfl⟩ <;>
      simp only [hbx, hby]
    · simp
    · -- a string and another object are different references
      have : x ≠ y := by
        rintro rfl
        rw [hbx] at hby
        exact absurd hby (by simp)
      simp [primitiveEqual, Value.number?, Value.eq, this]
    · have : x ≠ y := by
        rintro rfl
        rw [hbx] at hby
        exact absurd hby (by simp)
      simp [primitiveEqual, Value.number?, Value.eq, this]
    · have : x = y ↔ ix = iy := by
        constructor
        · rintro rfl
          simpa [hix] using hiy
        · rintro rfl
          exact Vm.checkedSlot_inj hsx hsy (hix.trans hiy.symm)
      simp [primitiveEqual, Value.number?, Value.eq, this]
  · have hobj' : ∀ x y, a = .object x → b ≠ .object y := fun x y hx hy => hobj ⟨x, y, hx, hy⟩
    rw [← primitiveEqual_eq_ofValue ha hb hobj']
    split
    · simp_all
    · simp_all
    · split
      · simp_all
      · rfl

end RivetLua.Runtime
