import RivetLua.Core.Comparison
import RivetLua.Runtime.RawKey

namespace RivetLua.Runtime

open RivetLua.Core StateProg

/-!
# Runtime — numbers as table keys

* `CanonicalKey.hashWrites` — what a key feeds to a hasher;
* `CanonicalKey.hashWrites_eq` — equal keys feed the same;
* `canonicalKey_number` — the key of a number;
* `numbers_ordered` — numbers are ordered by the values they denote, primitive equality is equality
  of keys, and equal keys hash equal.
-/

/-! ### Hashes -/

/-- One write to the state of a hasher. -/
inductive HashWrite where
  | tag (value : Nat)
  | integer (value : Int64)
  | bits (value : BitVec 64)
  | boolean (value : Bool)
  | address (value : Nat)
  | hostFunction (id : HostFunctionId)
  | bytes (value : List UInt8)
  | object (id : ObjectId)
  deriving DecidableEq

/-- `Hash for CanonicalKey`. -/
def CanonicalKey.hashWrites : CanonicalKey → List HashWrite
  | .integer i => [.tag 0, .integer i]
  | .float x => [.tag 1, .bits x.bits]
  | .boolean b => [.tag 2, .boolean b]
  | .lightUserdata a => [.tag 5, .address a]
  | .cFunction id => [.tag 6, .hostFunction id]
  | .shortString _ bytes | .byteString _ bytes _ | .deadShortString _ bytes =>
    [.tag 3, .bytes bytes]
  | .object _ id => [.tag 4, .object id]

/-- A float that is no integer is not zero. -/
theorem toRat_ne_zero_of_toI64? {x : F64} (hfinite : x.isFinite = true) (h : x.toI64? = none) :
    x.toRat ≠ 0 := by
  intro hzero
  have hint : x.toI64? = some 0 := by
    rw [F64.toI64?_eq_some_iff]
    exact ⟨hfinite, by rw [hzero]; rfl⟩
  rw [hint] at h
  cases h

/-- Equal float keys have the same bits: the two zeros are integer keys. -/
theorem bits_eq_of_eq {x y : F64} (hx : (CanonicalKey.float x).Storable)
    (hy : (CanonicalKey.float y).Storable) (h : x.eq y = true) : x.bits = y.bits := by
  rw [F64.eq, hx.1, hy.1, Bool.or_self, if_neg (by simp)] at h
  split at h
  · rename_i hfinite
    rw [Bool.and_eq_true] at hfinite
    have hne := toRat_ne_zero_of_toI64? hfinite.1 hx.2
    rw [F64.eq_of_toRat_eq hfinite.1 hfinite.2 hne (of_decide_eq_true h)]
  · exact of_decide_eq_true h

/-- Equal keys hash equal. -/
theorem CanonicalKey.hashWrites_eq {a b : CanonicalKey} (ha : a.Storable) (hb : b.Storable)
    (h : a.eq b = true) : a.hashWrites = b.hashWrites := by
  cases a <;> cases b
  case float.float x y =>
    rw [hashWrites, hashWrites, bits_eq_of_eq ha hb h]
  all_goals
    simp only [eq, stringBytes, decide_eq_true_eq, Bool.false_eq_true] at h
  all_goals
    rw [hashWrites, hashWrites, h]

/-! ### Keys of numbers -/

/-- The canonical key of a number that is not a NaN. -/
def numberKey : Number → CanonicalKey
  | .integer i => .integer i
  | .float x =>
    match x.toI64? with
    | some i => .integer i
    | none => .float x

section Numbers

variable {a b : Number} (ha : a.isNan = false)
include ha

theorem canonicalKey_number (vm : Vm) (ledger : Ledger) :
    canonicalKey vm a.toValue ledger = (.ok (some (numberKey a)), ledger) := by
  cases a with
  | integer i => rfl
  | float x =>
    have hx : x.isNan = false := ha
    show (if x.isNan = true then _ else _ : LedgerM (Option CanonicalKey)) ledger = _
    rw [if_neg (by simp [hx]), numberKey]
    cases x.toI64? with
    | some i => rfl
    | none => rfl

theorem storable_numberKey : (numberKey a).Storable := by
  cases a with
  | integer i => trivial
  | float x =>
    rw [numberKey]
    cases hx : x.toI64? with
    | some i => trivial
    | none => exact ⟨ha, hx⟩

theorem rawKey_numberKey : RawKey.ofNumber a = some (numberKey a).rawKey := by
  cases a with
  | integer i => rfl
  | float x =>
    have hx : x.isNan = false := ha
    show (if x.isNan = true then none else _) = _
    rw [if_neg (by simp [hx]), numberKey]
    cases x.toI64? with
    | some i => rfl
    | none => rfl

/-- Numbers are equal exactly when their keys are. -/
theorem equal_iff_numberKey (hb : b.isNan = false) :
    equal a b = true ↔ (numberKey a).eq (numberKey b) = true := by
  rw [equal_iff_ofNumber (rawKey_numberKey ha) (rawKey_numberKey hb),
    CanonicalKey.eq_iff_rawKey (storable_numberKey ha) (storable_numberKey hb)]

end Numbers

theorem rawEqual_number (vm : Vm) (a b : Number) :
    rawEqual vm a.toValue b.toValue = .ok (equal a b) := by
  cases a <;> cases b <;> rfl

/-! ### The order of numbers -/

/-- Numbers that are not NaNs are ordered by the values they denote.  So the order is total,
    antisymmetric and transitive across the subtypes; and primitive equality is equality of the
    canonical keys, which hash equal. -/
theorem numbers_ordered {a b c : Number} (ha : a.isNan = false) (hb : b.isNan = false)
    (hc : c.isNan = false) :
    ((Number.order .less a b = true ↔ a.denoted < b.denoted)
      ∧ (Number.order .lessEqual a b = true ↔ a.denoted ≤ b.denoted)
      ∧ (equal a b = true ↔ a.denoted = b.denoted))
    ∧ (Number.order .lessEqual a b = true ∨ Number.order .lessEqual b a = true)
    ∧ (Number.order .lessEqual a b = true → Number.order .lessEqual b a = true →
      equal a b = true)
    ∧ (Number.order .lessEqual a b = true → Number.order .lessEqual b c = true →
      Number.order .lessEqual a c = true)
    ∧ ∀ (vm : Vm) (ledger : Ledger), ∃ left right,
      canonicalKey vm a.toValue ledger = (.ok (some left), ledger)
      ∧ canonicalKey vm b.toValue ledger = (.ok (some right), ledger)
      ∧ rawEqual vm a.toValue b.toValue = .ok (left.eq right)
      ∧ (left.eq right = true → left.hashWrites = right.hashWrites) := by
  have hless := less_iff_denoted ha hb
  have hle := lessEqual_iff_denoted ha hb
  have hge := lessEqual_iff_denoted hb ha
  have heq := equal_iff_denoted ha hb
  refine ⟨⟨hless, hle, heq⟩, ?_, fun h1 h2 => ?_, fun h1 h2 => ?_, fun vm ledger => ?_⟩
  · rw [hle, hge]
    exact le_total _ _
  · exact heq.mpr (le_antisymm (hle.mp h1) (hge.mp h2))
  · rw [lessEqual_iff_denoted ha hc]
    exact (hle.mp h1).trans ((lessEqual_iff_denoted hb hc).mp h2)
  · refine ⟨numberKey a, numberKey b, canonicalKey_number ha vm ledger,
      canonicalKey_number hb vm ledger, ?_, ?_⟩
    · rw [rawEqual_number, Except.ok.injEq, Bool.eq_iff_iff]
      exact equal_iff_numberKey ha hb
    · exact CanonicalKey.hashWrites_eq (storable_numberKey ha) (storable_numberKey hb)

/-- `2 ^ 53 + 1`, `2.0 ^ 53` and `-0.0`: the first two are told apart. -/
theorem numbers_ordered_large :
    (Number.order .lessEqual (.integer 9007199254740993) (.float ⟨0x4340000000000000⟩) = true ↔
        (Number.integer 9007199254740993).denoted ≤ (Number.float ⟨0x4340000000000000⟩).denoted)
      ∧ Number.order .lessEqual (.integer 9007199254740993) (.float ⟨0x4340000000000000⟩) = false :=
  ⟨(@numbers_ordered (.integer 9007199254740993) (.float ⟨0x4340000000000000⟩)
    (.float ⟨0x8000000000000000⟩) rfl rfl rfl).1.2.1, by decide +kernel⟩

end RivetLua.Runtime
