import Mathlib.Order.WithBot
import RivetLua.Core.Arithmetic

namespace RivetLua.Core

/-!
# Core — comparison of numbers is exact

A number denotes a rational or an infinity.  The three relations of the source are those of the
denoted values, also between an integer and a float, where neither side is converted.

* `Number.denoted` — the value of a number that is not a NaN;
* `Number.order` — the four comparison operators;
* `compare_lt_iff`, `compare_eq_iff`, `compare_gt_iff` — the implementation orders the denoted
  values.
-/

/-- Rationals with the two infinities. -/
abbrev Extended : Type := WithBot (WithTop ℚ)

/-- A rational among the extended ones. -/
def Extended.finite (q : ℚ) : Extended := ((q : WithTop ℚ) : WithBot (WithTop ℚ))

/-- Positive infinity. -/
def Extended.infinity : Extended := ((⊤ : WithTop ℚ) : WithBot (WithTop ℚ))

namespace Extended

theorem finite_lt_finite {p q : ℚ} : finite p < finite q ↔ p < q := by
  rw [finite, finite, WithBot.coe_lt_coe, WithTop.coe_lt_coe]

theorem finite_le_finite {p q : ℚ} : finite p ≤ finite q ↔ p ≤ q := by
  rw [finite, finite, WithBot.coe_le_coe, WithTop.coe_le_coe]

theorem finite_inj {p q : ℚ} : finite p = finite q ↔ p = q := by
  rw [finite, finite, WithBot.coe_inj, WithTop.coe_inj]

theorem bot_lt_finite (q : ℚ) : (⊥ : Extended) < finite q := WithBot.bot_lt_coe _

theorem finite_lt_infinity (q : ℚ) : finite q < infinity :=
  WithBot.coe_lt_coe.mpr (WithTop.coe_lt_top q)

theorem bot_lt_infinity : (⊥ : Extended) < infinity := WithBot.bot_lt_coe _

end Extended

/-- The value of a float that is not a NaN. -/
def F64.denoted (x : F64) : Extended :=
  if x.isFinite then .finite x.toRat else if x.negative then ⊥ else .infinity

namespace Number

/-- Is this a NaN? -/
def isNan : Number → Bool
  | .integer _ => false
  | .float x => x.isNan

/-- The value of a number that is not a NaN. -/
def denoted : Number → Extended
  | .integer i => .finite i.toInt
  | .float x => x.denoted

/-- The value a number is. -/
def toValue : Number → Value
  | .integer i => .integer i
  | .float x => .float x

/-- The comparison operators. -/
inductive OrderOperation where
  | less | lessEqual | greater | greaterEqual
  deriving DecidableEq, Repr

/-- `raw_order` on two numbers. -/
def order (op : OrderOperation) (left right : Number) : Bool :=
  let ordering := compare left right
  match op with
  | .less => ordering == some .lt
  | .lessEqual => ordering == some .lt || ordering == some .eq
  | .greater => ordering == some .gt
  | .greaterEqual => ordering == some .gt || ordering == some .eq

end Number

/-! ### Two floats -/

namespace F64

/-- What is neither finite nor a NaN is an infinity. -/
theorem eq_infinity {x : F64} (hnan : x.isNan = false) (hfinite : x.isFinite = false) :
    x = infinity x.negative := by
  have hfield : x.exponentField = 2047 := by simpa [isFinite] using hfinite
  have hfraction : x.fractionField = 0 := by simpa [isNan, hfield] using hnan
  calc x = ofMagnitude x.negative (x.exponentField * 2 ^ 52 + x.fractionField) := eq_ofMagnitude x
    _ = infinity x.negative := by rw [hfield, hfraction, Nat.add_zero, infinity]

section Denoted

variable {x y : F64} (hx : x.isNan = false) (hy : y.isNan = false)
include hx hy

theorem eq_iff_denoted : x.eq y = true ↔ x.denoted = y.denoted := by
  rw [F64.eq, hx, hy, Bool.or_self, if_neg (by simp)]
  unfold denoted
  cases hfx : x.isFinite <;> cases hfy : y.isFinite
  · have hbits : x.bits = y.bits ↔ x.negative = y.negative := by
      constructor
      · intro h
        rw [F64.negative, F64.negative, h]
      · intro h
        rw [eq_infinity hx hfx, eq_infinity hy hfy, h]
    simp only [Bool.and_false, Bool.false_eq_true, if_false, decide_eq_true_eq, hbits]
    cases x.negative <;> cases y.negative <;>
      simp [Extended.bot_lt_infinity.ne, Extended.bot_lt_infinity.ne']
  · have hbits : x.bits ≠ y.bits := by
      intro h
      have : x = y := by cases x; cases y; exact congrArg _ h
      rw [this, hfy] at hfx
      cases hfx
    cases x.negative <;>
      simp [hbits, (Extended.bot_lt_finite _).ne, (Extended.finite_lt_infinity _).ne']
  · have hbits : x.bits ≠ y.bits := by
      intro h
      have : x = y := by cases x; cases y; exact congrArg _ h
      rw [this, hfy] at hfx
      cases hfx
    cases y.negative <;>
      simp [hbits, (Extended.bot_lt_finite _).ne', (Extended.finite_lt_infinity _).ne]
  · simp [Extended.finite_inj]

theorem lt_iff_denoted : x.lt y = true ↔ x.denoted < y.denoted := by
  rw [F64.lt, hx, hy, Bool.or_self, if_neg (by simp)]
  unfold denoted
  cases hfx : x.isFinite <;> cases hfy : y.isFinite
  · cases x.negative <;> cases y.negative <;>
      simp [Extended.bot_lt_infinity]
  · cases x.negative <;>
      simp [Extended.bot_lt_finite, (Extended.finite_lt_infinity _).le]
  · cases y.negative <;> simp [Extended.finite_lt_infinity]
  · simp [Extended.finite_lt_finite]

end Denoted

end F64

/-! ### An integer and a float -/

/-- Truncation goes towards zero. -/
theorem truncRat_of_nonneg {q : ℚ} (h : 0 ≤ q) : truncRat q = ⌊q⌋ := by
  rw [truncRat, Int.tdiv_eq_ediv_of_nonneg (Rat.num_nonneg.mpr h)]
  exact Rat.floor_def'.symm

theorem truncRat_of_neg {q : ℚ} (h : q < 0) : truncRat q = ⌈q⌉ := by
  have hneg := truncRat_of_nonneg (q := -q) (by linarith)
  rw [truncRat, Rat.neg_num, Rat.neg_den, Int.neg_tdiv, Int.floor_neg] at hneg
  rw [truncRat]
  omega

/-- An integer below the truncation is below the number, and likewise above. -/
theorem lt_of_lt_truncRat {i : Int} {q : ℚ} (h : i < truncRat q) : (i : ℚ) < q := by
  rcases le_or_gt 0 q with hq | hq
  · rw [truncRat_of_nonneg hq] at h
    exact (Int.cast_lt.mpr h).trans_le (Int.floor_le q)
  · rw [truncRat_of_neg hq] at h
    exact Int.lt_ceil.mp h

theorem lt_of_truncRat_lt {i : Int} {q : ℚ} (h : truncRat q < i) : q < (i : ℚ) := by
  rcases le_or_gt 0 q with hq | hq
  · rw [truncRat_of_nonneg hq] at h
    exact Int.floor_lt.mp h
  · rw [truncRat_of_neg hq] at h
    exact (Int.le_ceil q).trans_lt (Int.cast_lt.mpr h)

/-- The outcome of a comparison agrees with the order of two values. -/
def Orders (outcome : Option Ordering) (a b : Extended) : Prop :=
  (outcome = some .lt ∧ a < b) ∨ (outcome = some .eq ∧ a = b) ∨ (outcome = some .gt ∧ b < a)

theorem Orders.swap {outcome : Option Ordering} {a b : Extended} (h : Orders outcome a b) :
    Orders (outcome.map Ordering.swap) b a := by
  rcases h with ⟨rfl, h⟩ | ⟨rfl, h⟩ | ⟨rfl, h⟩
  · exact .inr (.inr ⟨rfl, h⟩)
  · exact .inr (.inl ⟨rfl, h.symm⟩)
  · exact .inl ⟨rfl, h⟩

theorem orders_compareIntegerFloat {i : Int64} {x : F64} (hx : x.isNan = false) :
    Orders (compareIntegerFloat i x) (.finite i.toInt) x.denoted := by
  have hlo : -9223372036854775808 ≤ i.toInt := Int64.minValue_le_toInt i
  have hhi : i.toInt ≤ 9223372036854775807 := Int64.toInt_le i
  have hlo' : -F64.twoTo63 ≤ (i.toInt : ℚ) := by
    unfold F64.twoTo63
    exact_mod_cast hlo
  have hhi' : (i.toInt : ℚ) < F64.twoTo63 := by
    have hlt : i.toInt < 9223372036854775808 := by omega
    unfold F64.twoTo63
    exact_mod_cast hlt
  unfold compareIntegerFloat F64.denoted
  rw [hx, if_neg (by simp)]
  cases hfinite : x.isFinite
  · -- an infinity
    cases x.negative
    · exact .inl ⟨rfl, Extended.finite_lt_infinity _⟩
    · exact .inr (.inr ⟨rfl, Extended.bot_lt_finite _⟩)
  · simp only [Bool.not_true, Bool.false_and, Bool.false_eq_true, if_false, if_true]
    by_cases hbelow : x.toRat < -F64.twoTo63
    · rw [if_pos hbelow]
      exact .inr (.inr ⟨rfl, Extended.finite_lt_finite.mpr (hbelow.trans_le hlo')⟩)
    by_cases habove : F64.twoTo63 ≤ x.toRat
    · rw [if_neg hbelow, if_pos habove]
      exact .inl ⟨rfl, Extended.finite_lt_finite.mpr (hhi'.trans_le habove)⟩
    rw [if_neg hbelow, if_neg habove]
    -- in range: the integer against the truncation, then the truncation against the number
    cases hcompare : Ord.compare i.toInt (truncRat x.toRat) with
    | lt =>
      have hlt := lt_of_lt_truncRat (Int.compare_eq_lt.mp hcompare)
      exact .inl ⟨rfl, Extended.finite_lt_finite.mpr hlt⟩
    | gt =>
      have hlt := lt_of_truncRat_lt (Int.compare_eq_gt.mp hcompare)
      exact .inr (.inr ⟨rfl, Extended.finite_lt_finite.mpr hlt⟩)
    | eq =>
      rw [Int.compare_eq_eq.mp hcompare]
      show Orders (if _ then _ else if _ then _ else _) _ _
      split_ifs with h1 h2
      · exact .inl ⟨rfl, Extended.finite_lt_finite.mpr h1⟩
      · exact .inr (.inr ⟨rfl, Extended.finite_lt_finite.mpr h2⟩)
      · exact .inr (.inl ⟨rfl, Extended.finite_inj.mpr (le_antisymm (not_lt.mp h2) (not_lt.mp h1))⟩)

/-! ### Two numbers -/

theorem orders_partialCmp {x y : F64} (hx : x.isNan = false) (hy : y.isNan = false) :
    Orders (x.partialCmp y) x.denoted y.denoted := by
  have heq := F64.eq_iff_denoted hx hy
  have hlt := F64.lt_iff_denoted hx hy
  rw [F64.partialCmp, hx, hy, Bool.or_self, if_neg (by simp)]
  split_ifs with h1 h2
  · exact .inr (.inl ⟨rfl, heq.mp h1⟩)
  · exact .inl ⟨rfl, hlt.mp h2⟩
  · refine .inr (.inr ⟨rfl, ?_⟩)
    rcases lt_trichotomy x.denoted y.denoted with h | h | h
    · exact absurd (hlt.mpr h) h2
    · exact absurd (heq.mpr h) h1
    · exact h

/-- A comparison orders the denoted values. -/
theorem orders_compare {a b : Number} (ha : a.isNan = false) (hb : b.isNan = false) :
    Orders (compare a b) a.denoted b.denoted := by
  cases a with
  | integer i =>
    cases b with
    | integer j =>
      show Orders (some (Ord.compare i.toInt j.toInt)) _ _
      cases hcompare : Ord.compare i.toInt j.toInt with
      | lt =>
        refine .inl ⟨rfl, Extended.finite_lt_finite.mpr ?_⟩
        exact_mod_cast Int.compare_eq_lt.mp hcompare
      | eq =>
        refine .inr (.inl ⟨rfl, Extended.finite_inj.mpr ?_⟩)
        exact_mod_cast Int.compare_eq_eq.mp hcompare
      | gt =>
        refine .inr (.inr ⟨rfl, Extended.finite_lt_finite.mpr ?_⟩)
        exact_mod_cast Int.compare_eq_gt.mp hcompare
    | float y => exact orders_compareIntegerFloat hb
  | float x =>
    cases b with
    | integer j => exact (orders_compareIntegerFloat ha).swap
    | float y => exact orders_partialCmp ha hb

section Order

variable {a b : Number} (ha : a.isNan = false) (hb : b.isNan = false)
include ha hb

theorem equal_iff_denoted : equal a b = true ↔ a.denoted = b.denoted := by
  rw [equal, beq_iff_eq]
  rcases orders_compare ha hb with ⟨h, hab⟩ | ⟨h, hab⟩ | ⟨h, hab⟩ <;> rw [h]
  · simp [hab.ne]
  · simp [hab]
  · simp [hab.ne']

theorem less_iff_denoted : Number.order .less a b = true ↔ a.denoted < b.denoted := by
  show (compare a b == some .lt) = true ↔ _
  rcases orders_compare ha hb with ⟨h, hab⟩ | ⟨h, hab⟩ | ⟨h, hab⟩ <;> rw [h]
  · simp [hab]
  · simp [hab]
  · simp [hab.le]

theorem lessEqual_iff_denoted : Number.order .lessEqual a b = true ↔ a.denoted ≤ b.denoted := by
  show (compare a b == some .lt || compare a b == some .eq) = true ↔ _
  rcases orders_compare ha hb with ⟨h, hab⟩ | ⟨h, hab⟩ | ⟨h, hab⟩ <;> rw [h]
  · simp [hab.le]
  · simp [hab]
  · simp [hab]

end Order

end RivetLua.Core
