import RivetLua.Core.Float

namespace RivetLua.Core

/-!
# Core — object identities and the single value classification

* `ObjectId` / `ObjectRef` — a heap identity is a VM, a slot and a generation; a
  reference handed out by the runtime also carries the token of its allocation, and two
  references are equal only when both agree;
* `Value` — the seven classes of Lua values.  Heap contents are never stored in a value,
  only the reference;
* `Number`, `compare`, `equal` — numeric comparison without rounding the integer side.
-/

/-- Identity of one VM. -/
structure VmId where
  token : Nat
  deriving DecidableEq, Repr

/-- A host C function, bound to the VM that created it. -/
structure HostFunctionId where
  vm : VmId
  token : Nat
  deriving DecidableEq, Repr

/-- Generation of a slot: a `u64` that is bumped at every reclaim. -/
structure Generation where
  value : Nat
  deriving DecidableEq, Repr

/-- `checked_add(1)` on the counter: the last generation has no successor. -/
def Generation.next (g : Generation) : Option Generation :=
  if g.value + 1 < 2 ^ 64 then some ⟨g.value + 1⟩ else none

/-- Full identity of a heap object. -/
structure ObjectId where
  vm : VmId
  slot : Nat
  generation : Generation
  deriving DecidableEq, Repr

/-- An object reference.  Only `heap` references with a token are produced by allocation;
    `opaqueId` is the old classification-only identity. -/
inductive ObjectRef where
  | opaqueId (id : Nat)
  | heap (id : ObjectId) (token : Option Nat)
  deriving DecidableEq, Repr

/-- The heap identity of a reference, absent for the old identities. -/
def ObjectRef.identity : ObjectRef → Option ObjectId
  | .opaqueId _ => none
  | .heap id _ => some id

/-- The allocation token of a reference. -/
def ObjectRef.runtimeToken : ObjectRef → Option Nat
  | .opaqueId _ => none
  | .heap _ token => token

/-- A Lua value. -/
inductive Value where
  | nil
  | boolean (b : Bool)
  | integer (i : Int64)
  | float (x : F64)
  | lightUserdata (address : Nat)
  | cFunction (id : HostFunctionId)
  | object (o : ObjectRef)
  deriving DecidableEq, Repr

/-- The reference a value holds, if any. -/
def Value.objectRef? : Value → Option ObjectRef
  | .object o => some o
  | _ => none

/-- `PartialEq` of `Value`: structural, except that floats compare as numbers. -/
def Value.eq : Value → Value → Bool
  | .float x, .float y => x.eq y
  | a, b => decide (a = b)

/-! ### Numbers -/

/-- The two numeric subtypes. -/
inductive Number where
  | integer (i : Int64)
  | float (x : F64)
  deriving DecidableEq, Repr

/-- The number a value holds, if it is one. -/
def Value.number? : Value → Option Number
  | .integer i => some (.integer i)
  | .float x => some (.float x)
  | _ => none

/-- `f64::trunc` read as an integer. -/
def truncRat (q : ℚ) : Int := q.num.tdiv q.den

/-- Order between an integer and a float, without converting the integer. -/
def compareIntegerFloat (i : Int64) (x : F64) : Option Ordering :=
  if x.isNan then none
  else if !x.isFinite && !x.negative then some .lt
  else if !x.isFinite && x.negative then some .gt
  else if x.toRat < -F64.twoTo63 then some .gt
  else if F64.twoTo63 ≤ x.toRat then some .lt
  else
    let truncated := truncRat x.toRat
    match Ord.compare i.toInt truncated with
    | .eq =>
      if (truncated : ℚ) < x.toRat then some .lt
      else if x.toRat < (truncated : ℚ) then some .gt
      else some .eq
    | ordering => some ordering

/-- Numeric order; a NaN has none. -/
def compare : Number → Number → Option Ordering
  | .integer i, .integer j => some (Ord.compare i.toInt j.toInt)
  | .float x, .float y => x.partialCmp y
  | .integer i, .float x => compareIntegerFloat i x
  | .float x, .integer i => (compareIntegerFloat i x).map Ordering.swap

/-- Numeric equality. -/
def equal (a b : Number) : Bool := compare a b == some .eq

/-- An integer and a float compare equal exactly when the float denotes that integer. -/
theorem compareIntegerFloat_eq_some_eq (i : Int64) (x : F64) :
    compareIntegerFloat i x = some .eq ↔ x.toI64? = some i := by
  rw [F64.toI64?_eq_some_iff]
  have hlo : -9223372036854775808 ≤ i.toInt := Int64.minValue_le_toInt i
  have hhi : i.toInt ≤ 9223372036854775807 := Int64.toInt_le i
  -- a NaN is not finite, so both sides fail on it
  have hnan : x.isNan = true → x.isFinite = false := by
    intro h
    unfold F64.isNan at h
    simp only [Bool.and_eq_true, beq_iff_eq] at h
    simp [F64.isFinite, h.1]
  unfold compareIntegerFloat
  by_cases hn : x.isNan = true
  · simp [hn, hnan hn]
  rw [if_neg hn]
  by_cases hf : x.isFinite = true
  · rw [hf]
    simp only [Bool.not_true, Bool.false_and, Bool.false_eq_true, if_false]
    by_cases h1 : x.toRat < -F64.twoTo63
    · rw [if_pos h1]
      have : x.toRat ≠ (i.toInt : ℚ) := by
        intro he
        rw [he] at h1
        unfold F64.twoTo63 at h1
        have : i.toInt < -9223372036854775808 := by exact_mod_cast h1
        omega
      simp [this]
    rw [if_neg h1]
    by_cases h2 : F64.twoTo63 ≤ x.toRat
    · rw [if_pos h2]
      have : x.toRat ≠ (i.toInt : ℚ) := by
        intro he
        rw [he] at h2
        unfold F64.twoTo63 at h2
        have : 9223372036854775808 ≤ i.toInt := by exact_mod_cast h2
        omega
      simp [this]
    rw [if_neg h2]
    -- in range: the integer is compared with the truncation, then with the rest
    constructor
    · intro h
      refine ⟨trivial, ?_⟩
      cases hc : Ord.compare i.toInt (truncRat x.toRat) with
      | lt => rw [hc] at h; simp at h
      | gt => rw [hc] at h; simp at h
      | eq =>
        rw [hc] at h
        have hi : i.toInt = truncRat x.toRat := Int.compare_eq_eq.mp hc
        simp only at h
        split at h
        · simp at h
        · split at h
          · simp at h
          · rename_i ha hb
            rw [hi]
            exact le_antisymm (not_lt.mp ha) (not_lt.mp hb)
    · rintro ⟨-, hq⟩
      have ht : truncRat x.toRat = i.toInt := by
        unfold truncRat
        rw [hq]
        simp
      have hc : Ord.compare i.toInt (truncRat x.toRat) = .eq := by
        rw [ht]
        exact Int.compare_eq_eq.mpr rfl
      rw [hc, ht, hq]
      simp
  · have hf' : x.isFinite = false := by simpa using hf
    cases hneg : x.negative <;> simp [hf']

end RivetLua.Core
