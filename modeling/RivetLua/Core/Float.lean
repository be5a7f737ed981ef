import Mathlib.Algebra.Order.Field.Rat
import Mathlib.Tactic.Ring
import Mathlib.Tactic.NormNum

namespace RivetLua.Core

/-!
# Core — IEEE binary64 values as bit patterns

A Lua float is kept as its 64 bits, so that every comparison of the source can be
stated on the number those bits denote and still be evaluated:

* `F64.isNan`, `F64.isFinite` — the two classifications the source asks for;
* `F64.toRat` — the rational denoted by a finite pattern;
* `F64.eq` / `F64.lt` — `==` and `<` of `f64` (false as soon as one side is a NaN);
* `F64.toI64?` — the cast `value as i64` guarded by the range and `fract() == 0.0` tests.
-/

/-- A binary64 bit pattern. -/
structure F64 where
  bits : BitVec 64
  deriving DecidableEq, Repr

namespace F64

/-- The sign bit. -/
def negative (x : F64) : Bool := x.bits.getLsbD 63

/-- The 11-bit biased exponent field. -/
def exponentField (x : F64) : Nat := (x.bits.toNat / 2 ^ 52) % 2 ^ 11

/-- The 52-bit fraction field. -/
def fractionField (x : F64) : Nat := x.bits.toNat % 2 ^ 52

/-- `f64::is_nan`. -/
def isNan (x : F64) : Bool := x.exponentField == 2047 && x.fractionField != 0

/-- `f64::is_finite`. -/
def isFinite (x : F64) : Bool := x.exponentField != 2047

/-- The significand with the implicit bit of a normal number. -/
def significand (x : F64) : Nat :=
  if x.exponentField = 0 then x.fractionField else x.fractionField + 2 ^ 52

/-- The power of two that scales the significand. -/
def scale (x : F64) : Int :=
  if x.exponentField = 0 then -1074 else (x.exponentField : Int) - 1075

/-- The rational denoted by a finite pattern (unused, and meaningless, on the others). -/
def toRat (x : F64) : ℚ :=
  (if x.negative then -1 else 1) * x.significand * (2 : ℚ) ^ x.scale

/-- `==` of `f64`: infinities are equal to themselves only, finite numbers by value. -/
def eq (x y : F64) : Bool :=
  if x.isNan || y.isNan then false
  else if x.isFinite && y.isFinite then decide (x.toRat = y.toRat)
  else decide (x.bits = y.bits)

/-- `<` of `f64`. -/
def lt (x y : F64) : Bool :=
  if x.isNan || y.isNan then false
  else if x.isFinite && y.isFinite then decide (x.toRat < y.toRat)
  else if x.isFinite then !y.negative
  else if y.isFinite then x.negative
  else x.negative && !y.negative

/-- `2^63`, the exclusive upper end of the `i64` range. -/
def twoTo63 : ℚ := 9223372036854775808

/-- The exact `i64` value of a float: finite, in range and without fractional part. -/
def toI64? (x : F64) : Option Int64 :=
  if x.isFinite && decide (-twoTo63 ≤ x.toRat) && decide (x.toRat < twoTo63)
      && decide (x.toRat.den = 1) then
    some (Int64.ofInt x.toRat.num)
  else none

/-- `f64::partial_cmp`: no order as soon as one side is a NaN. -/
def partialCmp (x y : F64) : Option Ordering :=
  if x.isNan || y.isNan then none
  else if x.eq y then some .eq
  else if x.lt y then some .lt
  else some .gt

/-- The order reports equality exactly when `==` does. -/
theorem partialCmp_eq_some_eq (x y : F64) : x.partialCmp y = some .eq ↔ x.eq y = true := by
  unfold partialCmp
  by_cases hn : (x.isNan || y.isNan) = true
  · simp [eq, hn]
  · rw [if_neg hn]
    by_cases he : x.eq y = true
    · simp [he]
    · rw [if_neg he]
      cases x.lt y <;> simp [he]

/-- The exact `i64` value is the number the bits denote. -/
theorem toI64?_eq_some_iff (x : F64) (i : Int64) :
    x.toI64? = some i ↔ x.isFinite = true ∧ x.toRat = (i.toInt : ℚ) := by
  have hlo : -9223372036854775808 ≤ i.toInt := Int64.minValue_le_toInt i
  have hhi : i.toInt ≤ 9223372036854775807 := Int64.toInt_le i
  unfold toI64?
  constructor
  · intro h
    split at h
    · rename_i hc
      simp only [Bool.and_eq_true, decide_eq_true_eq] at hc
      obtain ⟨⟨⟨hf, hge⟩, hlt⟩, hden⟩ := hc
      have hq : ((x.toRat.num : ℤ) : ℚ) = x.toRat := Rat.den_eq_one_iff _ |>.mp hden
      have hn : Int64.ofInt x.toRat.num = i := by simpa using h
      -- the numerator lies in the `i64` range, so the cast does not wrap
      have h1 : -9223372036854775808 ≤ x.toRat.num := by
        rw [← hq] at hge
        unfold twoTo63 at hge
        exact_mod_cast hge
      have h2 : x.toRat.num < 9223372036854775808 := by
        rw [← hq] at hlt
        unfold twoTo63 at hlt
        exact_mod_cast hlt
      have h3 : i.toInt = x.toRat.num := by
        rw [← hn]
        exact Int64.toInt_ofInt_of_le (by simpa using h1) (by simpa using h2)
      exact ⟨hf, by rw [h3, hq]⟩
    · exact absurd h (by simp)
  · rintro ⟨hf, hq⟩
    have hnum : x.toRat.num = i.toInt := by rw [hq]; simp
    have hden : x.toRat.den = 1 := by rw [hq]; simp
    have hge : -twoTo63 ≤ x.toRat := by
      rw [hq]
      unfold twoTo63
      exact_mod_cast hlo
    have hlt : x.toRat < twoTo63 := by
      rw [hq]
      unfold twoTo63
      have : i.toInt < 9223372036854775808 := by omega
      exact_mod_cast this
    simp [hf, hge, hlt, hden, hnum]

/-- Equal numbers have the same exact `i64` value. -/
theorem toI64?_congr {x y : F64} (h : x.eq y = true) : x.toI64? = y.toI64? := by
  unfold eq at h
  split at h
  · exact absurd h (by simp)
  · split at h
    · rename_i hfin
      have hq : x.toRat = y.toRat := by simpa using h
      have hx : x.isFinite = true := (Bool.and_eq_true_iff.mp hfin).1
      have hy : y.isFinite = true := (Bool.and_eq_true_iff.mp hfin).2
      simp only [toI64?, hq, hx, hy]
    · have hb : x = y := by
        cases x; cases y
        simpa using h
      rw [hb]

end F64

end RivetLua.Core
