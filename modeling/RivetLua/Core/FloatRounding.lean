import Mathlib.Algebra.Order.Round
import Mathlib.Data.Int.Log
import Mathlib.Data.Rat.Floor
import Mathlib.Tactic.Linarith
import Mathlib.Tactic.FieldSimp
import RivetLua.Core.Float

namespace RivetLua.Core

/-!
# Core — rounding to binary64

Every operation of `f64` computes the exact rational result and rounds it to the nearest double,
ties to the one with an even last bit.

* `roundHalfEven` — the nearest integer, ties to even;
* `F64.ofRat` — the double that a rational is rounded to;
* `F64.Rounds` — what correct rounding means, with overflow to infinity and signed zeros;
* `F64.ofRat_rounds` — `ofRat` rounds correctly.
-/

/-! ### The nearest integer -/

/-- The nearest integer; halfway between two integers the even one. -/
def roundHalfEven (q : ℚ) : Int :=
  if q - ⌊q⌋ < 1 / 2 then ⌊q⌋
  else if 1 / 2 < q - ⌊q⌋ then ⌊q⌋ + 1
  else if ⌊q⌋ % 2 = 0 then ⌊q⌋ else ⌊q⌋ + 1

theorem roundHalfEven_error (q : ℚ) : |(roundHalfEven q : ℚ) - q| ≤ 1 / 2 := by
  have hlo := Int.floor_le q
  have hhi := Int.lt_floor_add_one q
  unfold roundHalfEven
  split_ifs <;> push_cast <;> rw [abs_le] <;> constructor <;> linarith

/-- Only a tie is half a unit away, and it goes to the even integer. -/
theorem roundHalfEven_even {q : ℚ} (h : |(roundHalfEven q : ℚ) - q| = 1 / 2) :
    roundHalfEven q % 2 = 0 := by
  have hlo := Int.floor_le q
  have hhi := Int.lt_floor_add_one q
  unfold roundHalfEven at h ⊢
  split_ifs at h ⊢ with h1 h2 h3
  · rw [abs_sub_comm, abs_of_nonneg (by linarith)] at h
    linarith
  · push_cast at h
    rw [abs_of_nonneg (by linarith)] at h
    linarith
  · exact h3
  · omega

@[simp] theorem roundHalfEven_intCast (n : Int) : roundHalfEven (n : ℚ) = n := by
  simp [roundHalfEven]

/-- Two integers whose distances to `q` add up to less than one are the same. -/
theorem eq_of_abs_sub_lt {q : ℚ} {m n : Int} (h : |(m : ℚ) - q| + |(n : ℚ) - q| < 1) : m = n := by
  have hdist : |(m : ℚ) - n| < 1 := by
    calc |(m : ℚ) - n| = |((m : ℚ) - q) - (n - q)| := by rw [sub_sub_sub_cancel_right]
      _ ≤ |(m : ℚ) - q| + |(n : ℚ) - q| := abs_sub _ _
      _ < 1 := h
  have hint : |m - n| < 1 := by exact_mod_cast hdist
  exact sub_eq_zero.mp (Int.abs_lt_one_iff.mp hint)

/-- No integer is nearer. -/
theorem roundHalfEven_nearest (q : ℚ) (n : Int) :
    |(roundHalfEven q : ℚ) - q| ≤ |(n : ℚ) - q| := by
  have herror := roundHalfEven_error q
  by_contra hlt
  rw [not_le] at hlt
  have hsame : roundHalfEven q = n := eq_of_abs_sub_lt (by linarith)
  rw [hsame] at hlt
  exact lt_irrefl _ hlt

/-- Another integer at the same distance means a tie. -/
theorem roundHalfEven_tie {q : ℚ} {n : Int} (hne : n ≠ roundHalfEven q)
    (h : |(n : ℚ) - q| = |(roundHalfEven q : ℚ) - q|) : roundHalfEven q % 2 = 0 := by
  have herror := roundHalfEven_error q
  refine roundHalfEven_even (le_antisymm herror ?_)
  by_contra hlt
  rw [not_le] at hlt
  exact hne (eq_of_abs_sub_lt (by linarith))

theorem le_roundHalfEven {q : ℚ} {n : Int} (h : (n : ℚ) ≤ q) : n ≤ roundHalfEven q := by
  have hfloor : n ≤ ⌊q⌋ := Int.le_floor.mpr h
  unfold roundHalfEven
  split_ifs <;> omega

theorem roundHalfEven_le {q : ℚ} {n : Int} (h : q ≤ n) : roundHalfEven q ≤ n := by
  by_contra hlt
  rw [not_le] at hlt
  have hcast : (n : ℚ) + 1 ≤ roundHalfEven q := by exact_mod_cast hlt
  have herror := roundHalfEven_nearest q n
  rw [abs_of_nonneg (by linarith : (0 : ℚ) ≤ n - q),
    abs_of_nonneg (by linarith : (0 : ℚ) ≤ roundHalfEven q - q)] at herror
  linarith

namespace F64

/-! ### Magnitudes -/

/-- The absolute value of a finite pattern. -/
def magnitude (x : F64) : ℚ := x.significand * (2 : ℚ) ^ x.scale

theorem toRat_eq_magnitude (x : F64) :
    x.toRat = if x.negative then -x.magnitude else x.magnitude := by
  unfold toRat magnitude
  split <;> ring

theorem magnitude_nonneg (x : F64) : 0 ≤ x.magnitude :=
  mul_nonneg (Nat.cast_nonneg _) (zpow_nonneg (by norm_num) _)

theorem abs_toRat (x : F64) : |x.toRat| = x.magnitude := by
  rw [toRat_eq_magnitude]
  split
  · rw [abs_neg, abs_of_nonneg x.magnitude_nonneg]
  · rw [abs_of_nonneg x.magnitude_nonneg]

/-- The pattern with a sign and the 63 bits below it. -/
def ofMagnitude (negative : Bool) (bits : Nat) : F64 :=
  ⟨BitVec.ofNat 64 ((if negative then 2 ^ 63 else 0) + bits)⟩

/-- An infinity. -/
def infinity (negative : Bool) : F64 := ofMagnitude negative (2047 * 2 ^ 52)

/-- A zero. -/
def zero (negative : Bool) : F64 := ofMagnitude negative 0

/-- The quiet NaN.  Which NaN an operation of `f64` gives is not specified. -/
def nan : F64 := ofMagnitude false (2047 * 2 ^ 52 + 2 ^ 51)

section OfMagnitude

variable {negative : Bool} {bits : Nat}

theorem toNat_ofMagnitude (h : bits < 2 ^ 63) :
    (ofMagnitude negative bits).bits.toNat = (if negative then 2 ^ 63 else 0) + bits := by
  rw [ofMagnitude, BitVec.toNat_ofNat]
  split <;> omega

theorem negative_ofMagnitude (h : bits < 2 ^ 63) :
    (ofMagnitude negative bits).negative = negative := by
  rw [F64.negative, BitVec.getLsbD, toNat_ofMagnitude h, Nat.testBit_eq_decide_div_mod_eq]
  cases negative <;> simp <;> omega

theorem exponentField_ofMagnitude (h : bits < 2 ^ 63) :
    (ofMagnitude negative bits).exponentField = bits / 2 ^ 52 := by
  rw [exponentField, toNat_ofMagnitude h]
  split <;> omega

theorem fractionField_ofMagnitude (h : bits < 2 ^ 63) :
    (ofMagnitude negative bits).fractionField = bits % 2 ^ 52 := by
  rw [fractionField, toNat_ofMagnitude h]
  split <;> omega

end OfMagnitude

/-- Every pattern is its sign and its magnitude bits. -/
theorem eq_ofMagnitude (x : F64) :
    x = ofMagnitude x.negative (x.exponentField * 2 ^ 52 + x.fractionField) := by
  have hlt := x.bits.isLt
  have hsign : x.negative = decide (x.bits.toNat / 2 ^ 63 % 2 = 1) := by
    rw [F64.negative, BitVec.getLsbD, Nat.testBit_eq_decide_div_mod_eq]
  obtain ⟨bits⟩ := x
  rw [ofMagnitude, F64.mk.injEq]
  apply BitVec.eq_of_toNat_eq
  rw [BitVec.toNat_ofNat, hsign]
  simp only [exponentField, fractionField] at hlt ⊢
  by_cases h : bits.toNat / 2 ^ 63 % 2 = 1
  · simp only [h, decide_true, if_true]
    omega
  · simp only [h, decide_false, Bool.false_eq_true, if_false]
    omega

/-! ### Rounding -/

/-- Rounding happens at the last bit of the leading exponent, and never below the last bit of the
    subnormals; the result counts exponents from that of the subnormals. -/
def roundingStep (q : ℚ) : Nat := (Int.log 2 q + 1022).toNat

/-- The unit in the last place of a rounding step. -/
def unit (step : Nat) : ℚ := (2 : ℚ) ^ ((step : Int) - 1074)

/-- The magnitude bits of the double nearest to a nonnegative rational.  A significand that is
    rounded up to the next power of two carries into the exponent by itself. -/
def magnitudeBits (q : ℚ) : Nat :=
  if q = 0 then 0
  else roundingStep q * 2 ^ 52 + (roundHalfEven (q / unit (roundingStep q))).toNat

/-- The double that a rational is rounded to.  The sign is given, since zero has two. -/
def ofRat (negative : Bool) (q : ℚ) : F64 :=
  if 2047 * 2 ^ 52 ≤ magnitudeBits |q| then infinity negative
  else ofMagnitude negative (magnitudeBits |q|)

/-- From here on a result is rounded to infinity: half a unit above the greatest double. -/
def overflowBound : ℚ := (2 ^ 54 - 1) * 2 ^ 970

/-- A double is the correctly rounded value of a rational. -/
structure Rounds (negative : Bool) (q : ℚ) (y : F64) : Prop where
  sign : y.negative = negative
  notNan : y.isNan = false
  finite : y.isFinite = true ↔ |q| < overflowBound
  /-- No finite double is nearer. -/
  nearest : y.isFinite = true → ∀ z : F64, z.isFinite = true → |y.toRat - q| ≤ |z.toRat - q|
  /-- Where another one is as near, the last bit is zero. -/
  even : y.isFinite = true → ∀ z : F64, z.isFinite = true → z.toRat ≠ y.toRat →
    |z.toRat - q| = |y.toRat - q| → y.bits.toNat % 2 = 0

theorem unit_pos (step : Nat) : 0 < unit step := zpow_pos (by norm_num) _

theorem unit_add (step n : Nat) : unit (step + n) = 2 ^ n * unit step := by
  rw [unit, unit, ← zpow_natCast, ← zpow_add₀ (by norm_num)]
  congr 1
  push_cast
  ring

/-- The magnitude of a pattern given by a step and a significand. -/
theorem magnitude_ofMagnitude {negative : Bool} {step n : Nat} (hn : n ≤ 2 ^ 53)
    (hnormal : 2 ^ 52 ≤ n ∨ step = 0) (hfinite : step * 2 ^ 52 + n < 2047 * 2 ^ 52) :
    (ofMagnitude negative (step * 2 ^ 52 + n)).magnitude = n * unit step := by
  have hbits : step * 2 ^ 52 + n < 2 ^ 63 := by omega
  have hexponent := @exponentField_ofMagnitude negative _ hbits
  have hfraction := @fractionField_ofMagnitude negative _ hbits
  by_cases hsub : n < 2 ^ 52
  · -- a subnormal
    have hstep : step = 0 := hnormal.resolve_left (by omega)
    subst hstep
    have hzero : (0 * 2 ^ 52 + n) / 2 ^ 52 = 0 := by omega
    have hsame : (0 * 2 ^ 52 + n) % 2 ^ 52 = n := by omega
    rw [magnitude, significand, scale, hexponent, hfraction, hzero, hsame, if_pos rfl, if_pos rfl,
      unit]
    norm_num
  by_cases hcarry : n = 2 ^ 53
  · -- the significand became the next power of two
    have hfield : (step * 2 ^ 52 + n) / 2 ^ 52 = step + 2 := by omega
    have hzero : (step * 2 ^ 52 + n) % 2 ^ 52 = 0 := by omega
    have hscale : ((step + 2 : Nat) : Int) - 1075 = ((step + 1 : Nat) : Int) - 1074 := by
      push_cast
      ring
    rw [magnitude, significand, scale, hexponent, hfraction, hfield, hzero, if_neg (by omega),
      if_neg (by omega), hscale]
    show _ * unit (step + 1) = _
    rw [unit_add, hcarry]
    push_cast
    ring
  · have hfield : (step * 2 ^ 52 + n) / 2 ^ 52 = step + 1 := by omega
    have hrest : (step * 2 ^ 52 + n) % 2 ^ 52 + 2 ^ 52 = n := by omega
    have hscale : ((step + 1 : Nat) : Int) - 1075 = (step : Int) - 1074 := by
      push_cast
      ring
    rw [magnitude, significand, scale, hexponent, hfraction, hfield, if_neg (by omega),
      if_neg (by omega), hrest, hscale, unit]

/-- Every finite magnitude has this form. -/
theorem exists_magnitude_eq {z : F64} (hz : z.isFinite = true) :
    ∃ step n : Nat, n < 2 ^ 53 ∧ (2 ^ 52 ≤ n ∨ step = 0)
      ∧ step * 2 ^ 52 + n = z.exponentField * 2 ^ 52 + z.fractionField
      ∧ z.magnitude = n * unit step := by
  have hexponent : z.exponentField < 2 ^ 11 := Nat.mod_lt _ (by norm_num)
  have hfraction : z.fractionField < 2 ^ 52 := Nat.mod_lt _ (by norm_num)
  have hfield : z.exponentField ≠ 2047 := by simpa [isFinite] using hz
  by_cases hzero : z.exponentField = 0
  · refine ⟨0, z.fractionField, by omega, .inr rfl, by omega, ?_⟩
    rw [magnitude, significand, scale, if_pos hzero, if_pos hzero, unit]
    norm_num
  · refine ⟨z.exponentField - 1, z.fractionField + 2 ^ 52, by omega, .inl (by omega), by omega, ?_⟩
    rw [magnitude, significand, scale, if_neg hzero, if_neg hzero, unit]
    have hscale : (z.exponentField : Int) - 1075 = ((z.exponentField - 1 : Nat) : Int) - 1074 := by
      omega
    rw [hscale]

/-- A magnitude that is written in the steps has one significand. -/
theorem step_unique {step step' n m : Nat} (hn : n < 2 ^ 53) (hm : 2 ^ 52 ≤ m ∨ step' = 0)
    (h : (n : ℚ) * unit step = m * unit step') : ¬ step < step' := by
  intro hlt
  have hfull := hm.resolve_right (by omega)
  obtain ⟨d, rfl⟩ := Nat.exists_eq_add_of_lt hlt
  rw [Nat.add_assoc, unit_add, pow_succ] at h
  have hscaled : (n : ℚ) = m * (2 ^ d * 2) := by
    apply mul_right_cancel₀ (unit_pos step).ne'
    rw [h]
    ring
  have hcast : n = m * (2 ^ d * 2) := by exact_mod_cast hscaled
  have hone : 1 ≤ 2 ^ d := Nat.one_le_two_pow
  have hdouble : m * 2 ≤ n := by
    rw [hcast]
    exact Nat.mul_le_mul_left m (by omega)
  have hlarge : 2 ^ 52 * 2 ≤ m * 2 := Nat.mul_le_mul_right 2 hfull
  exact absurd hn (Nat.not_lt.mpr (hlarge.trans hdouble))

/-- Equal magnitudes are the same bits below the sign. -/
theorem magnitude_inj {x y : F64} (hx : x.isFinite = true) (hy : y.isFinite = true)
    (h : x.magnitude = y.magnitude) :
    x.exponentField * 2 ^ 52 + x.fractionField = y.exponentField * 2 ^ 52 + y.fractionField := by
  obtain ⟨step, n, hn, hstep, hbits, hmag⟩ := exists_magnitude_eq hx
  obtain ⟨step', m, hm, hstep', hbits', hmag'⟩ := exists_magnitude_eq hy
  rw [hmag, hmag'] at h
  have hsame : step = step' := Nat.le_antisymm
    (Nat.not_lt.mp (step_unique hm hstep h.symm)) (Nat.not_lt.mp (step_unique hn hstep' h))
  subst hsame
  have hcast : (n : ℚ) = m := mul_right_cancel₀ (unit_pos step).ne' h
  have hsignificand : n = m := by exact_mod_cast hcast
  subst hsignificand
  exact hbits.symm.trans hbits'

/-- Equal numbers other than zero have the same bits. -/
theorem eq_of_toRat_eq {x y : F64} (hx : x.isFinite = true) (hy : y.isFinite = true)
    (hne : x.toRat ≠ 0) (h : x.toRat = y.toRat) : x = y := by
  have hmag : x.magnitude = y.magnitude := by rw [← abs_toRat, ← abs_toRat, h]
  have hpos : 0 < x.magnitude := by
    rw [← abs_toRat]
    exact abs_pos.mpr hne
  have hsign : x.negative = y.negative := by
    rw [toRat_eq_magnitude, toRat_eq_magnitude, ← hmag] at h
    cases hxs : x.negative <;> cases hys : y.negative <;> simp only [hxs, hys] at h
    · rfl
    · exact absurd h (by simp; linarith)
    · exact absurd h (by simp; linarith)
    · rfl
  rw [eq_ofMagnitude x, eq_ofMagnitude y, hsign, magnitude_inj hx hy hmag]

/-- A finite magnitude is a multiple of the unit of a step, or lies below every normal significand
    of that step. -/
theorem magnitude_multiple_or_lt {z : F64} (hz : z.isFinite = true) (step : Nat) :
    (∃ m : Int, z.magnitude = m * unit step)
      ∨ 0 < step ∧ z.magnitude < 2 ^ 52 * unit step := by
  obtain ⟨step', n, hn, -, -, hmag⟩ := exists_magnitude_eq hz
  rcases Nat.le_total step step' with hle | hle
  · left
    obtain ⟨d, rfl⟩ := Nat.exists_eq_add_of_le hle
    refine ⟨n * 2 ^ d, ?_⟩
    rw [hmag, unit_add]
    push_cast
    ring
  · rcases Nat.eq_or_lt_of_le hle with rfl | hlt
    · exact .inl ⟨n, by rw [hmag]; push_cast; rfl⟩
    · right
      obtain ⟨d, rfl⟩ := Nat.exists_eq_add_of_le (Nat.succ_le_of_lt hlt)
      have hnlt : (n : ℚ) < 2 ^ 53 := by exact_mod_cast hn
      have hpow : (1 : ℚ) ≤ 2 ^ d := one_le_pow₀ (by norm_num)
      have hu := unit_pos step'
      refine ⟨by omega, ?_⟩
      calc z.magnitude = n * unit step' := hmag
        _ < 2 ^ 53 * unit step' := mul_lt_mul_of_pos_right hnlt hu
        _ ≤ 2 ^ 53 * (2 ^ d * unit step') := by nlinarith
        _ = 2 ^ 52 * unit (step'.succ + d) := by
          rw [unit_add, Nat.succ_eq_add_one, unit_add]
          ring

/-! ### The step of a rational -/

section Step

variable {q : ℚ}

theorem lt_unit_roundingStep (q : ℚ) : q < 2 ^ 53 * unit (roundingStep q) := by
  calc q < (2 : ℚ) ^ (Int.log 2 q + 1) := Int.lt_zpow_succ_log_self (by norm_num) q
    _ ≤ (2 : ℚ) ^ ((53 : Int) + ((roundingStep q : Int) - 1074)) := by
      apply zpow_le_zpow_right₀ (by norm_num)
      unfold roundingStep
      omega
    _ = 2 ^ 53 * unit (roundingStep q) := by
      rw [zpow_add₀ (by norm_num), unit]
      norm_num

theorem unit_roundingStep_le (hq : 0 < q) (h : 0 < roundingStep q) :
    2 ^ 52 * unit (roundingStep q) ≤ q := by
  calc
    2 ^ 52 * unit (roundingStep q) = (2 : ℚ) ^ ((52 : Int) + ((roundingStep q : Int) - 1074)) := by
      rw [zpow_add₀ (by norm_num), unit]
      norm_num
    _ = (2 : ℚ) ^ Int.log 2 q := by
      congr 1
      unfold roundingStep at h ⊢
      omega
    _ ≤ q := Int.zpow_log_le_self (by norm_num) hq

/-- The rounded significand of a rational. -/
theorem roundHalfEven_step (hq : 0 < q) : ∃ n : Nat,
    roundHalfEven (q / unit (roundingStep q)) = n ∧ n ≤ 2 ^ 53
      ∧ (2 ^ 52 ≤ n ∨ roundingStep q = 0) := by
  have hu := unit_pos (roundingStep q)
  have hnonneg : 0 ≤ roundHalfEven (q / unit (roundingStep q)) :=
    le_roundHalfEven (by push_cast; positivity)
  have hle : roundHalfEven (q / unit (roundingStep q)) ≤ 2 ^ 53 := by
    apply roundHalfEven_le
    rw [div_le_iff₀ hu]
    exact_mod_cast (lt_unit_roundingStep q).le
  obtain ⟨n, hn⟩ := Int.eq_ofNat_of_zero_le hnonneg
  rw [hn] at hle
  refine ⟨n, hn, by exact_mod_cast hle, ?_⟩
  rcases Nat.eq_zero_or_pos (roundingStep q) with hzero | hpos
  · exact .inr hzero
  · left
    have hge : (2 ^ 52 : Int) ≤ roundHalfEven (q / unit (roundingStep q)) := by
      apply le_roundHalfEven
      rw [le_div_iff₀ hu]
      exact_mod_cast unit_roundingStep_le hq hpos
    rw [hn] at hge
    exact_mod_cast hge

end Step

/-- The integer nearest to `q` in units is nearest to `q` among the multiples of the unit. -/
theorem scaled_nearest {q u : ℚ} (hu : 0 < u) (m : Int) :
    |roundHalfEven (q / u) * u - q| ≤ |(m : ℚ) * u - q| := by
  have hscale : ∀ a : ℚ, |a * u - q| = |a - q / u| * u := by
    intro a
    rw [← abs_of_pos hu, ← abs_mul, abs_of_pos hu, sub_mul, div_mul_cancel₀ q hu.ne']
  rw [hscale, hscale]
  exact mul_le_mul_of_nonneg_right (roundHalfEven_nearest _ m) hu.le

theorem scaled_tie {q u : ℚ} (hu : 0 < u) {m : Int} (hne : (m : ℚ) * u ≠ roundHalfEven (q / u) * u)
    (h : |(m : ℚ) * u - q| = |roundHalfEven (q / u) * u - q|) : roundHalfEven (q / u) % 2 = 0 := by
  have hscale : ∀ a : ℚ, |a * u - q| = |a - q / u| * u := by
    intro a
    rw [← abs_of_pos hu, ← abs_mul, abs_of_pos hu, sub_mul, div_mul_cancel₀ q hu.ne']
  rw [hscale, hscale] at h
  refine roundHalfEven_tie (fun heq => hne ?_) (mul_right_cancel₀ hu.ne' h)
  rw [heq]

/-! ### Rounding is correct -/

/-- The magnitude bits as a step and a rounded significand. -/
theorem magnitudeBits_eq {a : ℚ} (ha : 0 ≤ a) : ∃ step n : Nat,
    magnitudeBits a = step * 2 ^ 52 + n ∧ roundHalfEven (a / unit step) = n ∧ n ≤ 2 ^ 53
      ∧ (2 ^ 52 ≤ n ∨ step = 0) ∧ a < 2 ^ 53 * unit step
      ∧ (0 < step → 2 ^ 52 * unit step ≤ a) := by
  rcases ha.eq_or_lt with rfl | hpos
  · refine ⟨0, 0, by simp [magnitudeBits], ?_, by omega, .inr rfl, ?_, by omega⟩
    · rw [zero_div]
      exact roundHalfEven_intCast 0
    · exact mul_pos (by norm_num) (unit_pos 0)
  · obtain ⟨n, hn, hle, hnormal⟩ := roundHalfEven_step hpos
    refine ⟨roundingStep a, n, ?_, hn, hle, hnormal, lt_unit_roundingStep a,
      unit_roundingStep_le hpos⟩
    rw [magnitudeBits, if_neg hpos.ne', hn, Int.toNat_natCast]

theorem unit_mono {step step' : Nat} (h : step ≤ step') : unit step ≤ unit step' := by
  apply zpow_le_zpow_right₀ (by norm_num)
  omega

/-- The greatest significand of the last binade is kept below half a unit. -/
theorem roundHalfEven_lt_iff {a : ℚ} (ha : a < 2 ^ 53) :
    roundHalfEven a < 2 ^ 53 ↔ a < 2 ^ 53 - 1 / 2 := by
  constructor
  · intro h
    by_contra hge
    rw [not_lt] at hge
    have hfloor : ⌊a⌋ = 2 ^ 53 - 1 := by
      rw [Int.floor_eq_iff]
      push_cast
      constructor <;> linarith
    have hround : roundHalfEven a = 2 ^ 53 := by
      unfold roundHalfEven
      rw [hfloor]
      push_cast
      rw [if_neg (by linarith)]
      split_ifs <;> norm_num
    omega
  · intro h
    by_contra hge
    rw [not_lt] at hge
    have hcast : (2 ^ 53 : ℚ) ≤ roundHalfEven a := by exact_mod_cast hge
    have herror := (abs_le.mp (roundHalfEven_error a)).2
    linarith

theorem magnitudeBits_lt_iff {a : ℚ} (ha : 0 ≤ a) :
    magnitudeBits a < 2047 * 2 ^ 52 ↔ a < overflowBound := by
  obtain ⟨step, n, hbits, hround, hn, hnormal, hlt, hge⟩ := magnitudeBits_eq ha
  have hu := unit_pos step
  have hbase : unit 2044 = 2 ^ 970 := by
    rw [unit]
    norm_num
  unfold overflowBound
  rw [hbits, ← hbase]
  rcases Nat.lt_trichotomy step 2045 with hsmall | rfl | hlarge
  · have hunit : unit step ≤ unit 2044 := unit_mono (by omega)
    exact ⟨fun _ => by linarith only [hlt, hunit, unit_pos 2044], fun _ => by omega⟩
  · have hdouble : unit 2045 = 2 ^ 1 * unit 2044 := unit_add 2044 1
    have hscaled := roundHalfEven_lt_iff ((div_lt_iff₀ hu).mpr hlt)
    rw [hround, lt_sub_iff_add_lt, div_add' _ _ _ hu.ne', div_lt_iff₀ hu, hdouble] at hscaled
    constructor
    · intro h
      have hnlt : n < 2 ^ 53 := by omega
      have hbelow := hscaled.mp (by exact_mod_cast hnlt)
      linarith
    · intro h
      have hnlt : (n : Int) < 2 ^ 53 := hscaled.mpr (by linarith)
      have hnlt' : n < 2 ^ 53 := by exact_mod_cast hnlt
      omega
  · have hunit : unit (2044 + 2) ≤ unit step := unit_mono (by omega)
    rw [unit_add] at hunit
    have habove := hge (by omega)
    have hfull := hnormal.resolve_right (by omega)
    have hpos := unit_pos 2044
    exact ⟨fun _ => by omega, fun h => absurd h (by linarith only [hunit, habove, hpos])⟩

theorem isFinite_ofMagnitude {negative : Bool} {bits : Nat} (h : bits < 2 ^ 63) :
    (ofMagnitude negative bits).isFinite = true ↔ bits < 2047 * 2 ^ 52 := by
  have hfield := @exponentField_ofMagnitude negative _ h
  rw [isFinite, hfield, bne_iff_ne]
  omega

theorem isNan_ofMagnitude {negative : Bool} {bits : Nat} (h : bits < 2 ^ 63) :
    (ofMagnitude negative bits).isNan = true ↔ 2047 * 2 ^ 52 < bits := by
  have hfield := @exponentField_ofMagnitude negative _ h
  have hrest := @fractionField_ofMagnitude negative _ h
  rw [isNan, hfield, hrest, Bool.and_eq_true, beq_iff_eq, bne_iff_ne]
  omega

theorem ofRat_eq_ofMagnitude (negative : Bool) (q : ℚ) :
    ∃ bits, ofRat negative q = ofMagnitude negative bits ∧ bits ≤ 2047 * 2 ^ 52
      ∧ (bits < 2047 * 2 ^ 52 ↔ |q| < overflowBound)
      ∧ (|q| < overflowBound → bits = magnitudeBits |q|) := by
  have hiff := magnitudeBits_lt_iff (abs_nonneg q)
  by_cases h : 2047 * 2 ^ 52 ≤ magnitudeBits |q|
  · have hbound : ¬ |q| < overflowBound := fun hlt => absurd (hiff.mpr hlt) (Nat.not_lt.mpr h)
    refine ⟨2047 * 2 ^ 52, by rw [ofRat, if_pos h, infinity], le_rfl, ?_, fun hlt => absurd hlt hbound⟩
    exact ⟨fun hlt => absurd hlt (lt_irrefl _), fun hlt => absurd hlt hbound⟩
  · exact ⟨magnitudeBits |q|, by rw [ofRat, if_neg h], by omega, hiff, fun _ => rfl⟩

/-- Distances between numbers of one sign are those of their magnitudes. -/
theorem abs_sub_of_sign {negative : Bool} {y q a b : ℚ}
    (hy : y = if negative then -a else a) (hq : q = if negative then -b else b) :
    |y - q| = |a - b| := by
  rw [hy, hq]
  split
  · rw [neg_sub_neg, abs_sub_comm]
  · rfl

/-- The rounded magnitude is nearest, ties to even. -/
theorem magnitude_nearest {a : ℚ} (ha : 0 ≤ a) (hbound : a < overflowBound) (negative : Bool)
    {z : F64} (hz : z.isFinite = true) :
    |(ofMagnitude negative (magnitudeBits a)).magnitude - a| ≤ |z.magnitude - a|
      ∧ (z.magnitude ≠ (ofMagnitude negative (magnitudeBits a)).magnitude →
        |z.magnitude - a| = |(ofMagnitude negative (magnitudeBits a)).magnitude - a| →
        magnitudeBits a % 2 = 0) := by
  obtain ⟨step, n, hbits, hround, hn, hnormal, hlt, hge⟩ := magnitudeBits_eq ha
  have hu := unit_pos step
  have hfinite := (magnitudeBits_lt_iff ha).mpr hbound
  rw [hbits] at hfinite ⊢
  rw [magnitude_ofMagnitude hn hnormal hfinite]
  have hcast : (n : ℚ) = (roundHalfEven (a / unit step) : ℚ) := by
    rw [hround]
    push_cast
    rfl
  rw [hcast]
  rcases magnitude_multiple_or_lt hz step with ⟨m, hm⟩ | ⟨hpos, hsmall⟩
  · rw [hm]
    refine ⟨scaled_nearest hu m, fun hne htie => ?_⟩
    have heven := scaled_tie hu hne htie
    rw [hround] at heven
    omega
  · -- the least normal significand of the step lies between the other double and `a`
    have hbetween := hge hpos
    have hnear : |(roundHalfEven (a / unit step) : ℚ) * unit step - a|
        ≤ |((2 ^ 52 : Int) : ℚ) * unit step - a| := scaled_nearest hu (2 ^ 52)
    have hstrict : |((2 ^ 52 : Int) : ℚ) * unit step - a| < |z.magnitude - a| := by
      push_cast
      rw [abs_sub_comm, abs_of_nonneg (by linarith), abs_sub_comm, abs_of_nonneg (by linarith)]
      linarith
    refine ⟨(hnear.trans_lt hstrict).le, fun _ htie => ?_⟩
    rw [htie] at hstrict
    exact absurd (hnear.trans_lt hstrict) (lt_irrefl _)

/-- Rounding is correct. -/
theorem ofRat_rounds {negative : Bool} {q : ℚ} (hsign : q = if negative then -|q| else |q|) :
    Rounds negative q (ofRat negative q) := by
  obtain ⟨bits, hy, hle, hiff, hbits⟩ := ofRat_eq_ofMagnitude negative q
  have hlt : bits < 2 ^ 63 := by omega
  have hneg := @negative_ofMagnitude negative _ hlt
  have hfinite := (@isFinite_ofMagnitude negative _ hlt).trans hiff
  rw [hy]
  have hvalue := toRat_eq_magnitude (ofMagnitude negative bits)
  rw [hneg] at hvalue
  have hdist := abs_sub_of_sign hvalue hsign
  -- a double of the other sign is even farther away
  have hother : ∀ z : F64, |z.magnitude - (|q|)| ≤ |z.toRat - q| := by
    intro z
    rw [← abs_toRat]
    exact abs_abs_sub_abs_le _ _
  refine ⟨hneg, ?_, hfinite, ?_, ?_⟩
  · rw [Bool.eq_false_iff]
    intro hnan
    rw [isNan_ofMagnitude hlt] at hnan
    omega
  · intro hy z hz
    have hbound := hfinite.mp hy
    have hnear := magnitude_nearest (abs_nonneg q) hbound negative hz
    rw [← hbits hbound] at hnear
    rw [hdist]
    exact hnear.1.trans (hother z)
  · intro hy z hz hne htie
    have hbound := hfinite.mp hy
    have hnear := magnitude_nearest (abs_nonneg q) hbound negative hz
    rw [← hbits hbound] at hnear
    have hsame : |z.magnitude - (|q|)| = |(ofMagnitude negative bits).magnitude - (|q|)| :=
      le_antisymm ((hother z).trans_eq (htie.trans hdist)) hnear.1
    have heven : bits % 2 = 0 := by
      by_cases hmag : z.magnitude = (ofMagnitude negative bits).magnitude
      · -- the other double is the negated one, so `q` is zero
        have hzneg : z.toRat = -(ofMagnitude negative bits).toRat := by
          rcases abs_eq_abs.mp ((abs_toRat z).trans (hmag.trans (abs_toRat _).symm)) with h | h
          · exact absurd h hne
          · exact h
        have hzero : q = 0 := by
          rcases abs_eq_abs.mp htie with h | h
          · exact absurd (sub_left_inj.mp h) hne
          · rw [hzneg] at h
            linarith
        rw [hbits hbound, hzero, abs_zero, magnitudeBits, if_pos rfl]
      · exact hnear.2 hmag hsame
    rw [toNat_ofMagnitude hlt]
    split <;> omega

theorem toRat_sign (x : F64) : x.toRat = if x.negative then -|x.toRat| else |x.toRat| := by
  rw [abs_toRat, toRat_eq_magnitude]

/-- Every finite double lies below the bound of overflow. -/
theorem magnitude_lt_overflowBound {x : F64} (hx : x.isFinite = true) :
    x.magnitude < overflowBound := by
  obtain ⟨step, n, hn, hstep, hbits, hmag⟩ := exists_magnitude_eq hx
  have hexponent : x.exponentField < 2 ^ 11 := Nat.mod_lt _ (by norm_num)
  have hfraction : x.fractionField < 2 ^ 52 := Nat.mod_lt _ (by norm_num)
  have hfield : x.exponentField ≠ 2047 := by simpa [isFinite] using hx
  have hunit : unit step ≤ unit (2044 + 1) := unit_mono (by omega)
  have hbase : unit 2044 = 2 ^ 970 := by
    rw [unit]
    norm_num
  have hn' : (n : ℚ) ≤ 2 ^ 53 - 1 := by
    have : (n : ℚ) + 1 ≤ 2 ^ 53 := by exact_mod_cast hn
    linarith
  have hpos := unit_pos 2044
  rw [unit_add] at hunit
  rw [hmag, overflowBound, ← hbase]
  calc (n : ℚ) * unit step ≤ (2 ^ 53 - 1) * (2 ^ 1 * unit 2044) :=
        mul_le_mul hn' hunit (unit_pos step).le (by norm_num)
    _ < (2 ^ 54 - 1) * unit 2044 := by linarith only [hpos]

/-- A double is rounded to a finite one of the same value, whatever the sign of a zero. -/
theorem toRat_ofRat {negative : Bool} {q : ℚ} (hsign : q = if negative then -|q| else |q|)
    {x : F64} (hx : x.isFinite = true) (hq : x.toRat = q) :
    (ofRat negative q).isFinite = true ∧ (ofRat negative q).toRat = q := by
  have hrounds := ofRat_rounds hsign
  have hfinite : (ofRat negative q).isFinite = true := by
    rw [hrounds.finite, ← hq, abs_toRat]
    exact magnitude_lt_overflowBound hx
  have hnear := hrounds.nearest hfinite x hx
  rw [hq, sub_self, abs_zero] at hnear
  exact ⟨hfinite, sub_eq_zero.mp (abs_nonpos_iff.mp hnear)⟩

/-- A number that is a double is not changed. -/
theorem ofRat_toRat {x : F64} (hx : x.isFinite = true) : ofRat x.negative x.toRat = x := by
  have hrounds := ofRat_rounds x.toRat_sign
  obtain ⟨hfinite, hsame⟩ := toRat_ofRat x.toRat_sign hx rfl
  have hmag : (ofRat x.negative x.toRat).magnitude = x.magnitude := by
    rw [← abs_toRat, hsame, abs_toRat]
  rw [eq_ofMagnitude (ofRat x.negative x.toRat), hrounds.sign, magnitude_inj hfinite hx hmag]
  exact (eq_ofMagnitude x).symm

/-- Integers below `2 ^ 53` are doubles. -/
theorem toRat_ofRat_intCast {negative : Bool} {n : Int}
    (hsign : (n : ℚ) = if negative then -|(n : ℚ)| else |(n : ℚ)|) (hn : |(n : ℚ)| < 2 ^ 53) :
    (ofRat negative n).isFinite = true ∧ (ofRat negative n).toRat = n := by
  obtain ⟨step, m, hbits, hround, hm, hnormal, hlt, hge⟩ := magnitudeBits_eq (abs_nonneg (n : ℚ))
  have hstep : step ≤ 1074 := by
    by_contra hlarge
    have hunit : unit (1074 + 1) ≤ unit step := unit_mono (by omega)
    have hbase : unit 1074 = 1 := by
      rw [unit]
      norm_num
    rw [unit_add, hbase] at hunit
    have := hge (by omega)
    linarith
  -- the unit divides one, so that the significand is an integer before it is rounded
  obtain ⟨d, hd⟩ := Nat.exists_eq_add_of_le hstep
  have hone : 2 ^ d * unit step = 1 := by
    rw [← unit_add, ← hd, unit]
    norm_num
  have hquotient : |(n : ℚ)| / unit step = ((|n| * 2 ^ d : Int) : ℚ) := by
    rw [div_eq_iff (unit_pos step).ne']
    push_cast
    rw [mul_assoc, hone, mul_one]
  rw [hquotient, roundHalfEven_intCast] at hround
  have hfinite : step * 2 ^ 52 + m < 2047 * 2 ^ 52 := by omega
  have hmag := @magnitude_ofMagnitude negative _ _ hm hnormal hfinite
  have hbelow : step * 2 ^ 52 + m < 2 ^ 63 := by omega
  have hvalue : (m : ℚ) * unit step = |(n : ℚ)| := by
    have hcast : (m : ℚ) = ((|n| * 2 ^ d : Int) : ℚ) := by
      rw [hround]
      push_cast
      rfl
    rw [hcast, ← hquotient, div_mul_cancel₀ _ (unit_pos step).ne']
  apply toRat_ofRat hsign (x := ofMagnitude negative (step * 2 ^ 52 + m))
  · exact (isFinite_ofMagnitude hbelow).mpr hfinite
  · rw [toRat_eq_magnitude, negative_ofMagnitude hbelow, hmag, hvalue]
    exact hsign.symm

end F64

end RivetLua.Core
