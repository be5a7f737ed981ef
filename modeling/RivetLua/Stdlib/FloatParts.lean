import Mathlib.Data.Nat.Bitwise
import RivetLua.Core.FloatRounding

namespace RivetLua.Stdlib.Math

open RivetLua.Core

/-!
# Stdlib — `frexp` and `ldexp`

Both functions work on the bits of a double: the sign, eleven bits of exponent and 52 bits of
fraction.

* `frexp`, `ldexp` — the functions;
* `ldexp_eq_ofRat` — `ldexp` is the correctly rounded product with a power of two;
* `parts_exact` — the laws of the pair.
-/

/-! ### The functions -/

/-- `u64::leading_zeros`. -/
def leadingZeros (bits : BitVec 64) : Nat :=
  if bits.toNat = 0 then 64 else 63 - bits.toNat.log2

/-- `bits & (1 << 63)`. -/
def signBits (bits : BitVec 64) : BitVec 64 := bits &&& (1#64 <<< 63)

/-- `(bits >> 52) & 0x7ff`. -/
def exponentBits (bits : BitVec 64) : BitVec 64 := (bits >>> 52) &&& 0x7ff#64

/-- `bits & ((1 << 52) - 1)`. -/
def fractionBits (bits : BitVec 64) : BitVec 64 := bits &&& ((1#64 <<< 52) - 1#64)

/-- The function `frexp`. -/
def frexp (value : F64) : F64 × Int :=
  let bits := value.bits
  let sign := signBits bits
  let exponent : Int := (exponentBits bits).toNat
  let fraction := fractionBits bits
  if exponent = 0x7ff ∨ exponent = 0 ∧ fraction = 0 then (value, 0)
  else if exponent ≠ 0 then (⟨sign ||| (1022#64 <<< 52) ||| fraction⟩, exponent - 1022)
  else
    let highest : Int := 63 - leadingZeros fraction
    let normalized := fraction <<< (52 - highest).toNat
    (⟨sign ||| (1022#64 <<< 52) ||| fractionBits normalized⟩, highest - 1073)

/-- The significand of a number other than zero, scaled to 53 bits, and the exponent of its leading
    bit. -/
def normalize (oldExponent : Int) (fraction : BitVec 64) : BitVec 64 × Int :=
  if oldExponent = 0 then
    let highest : Int := 63 - leadingZeros fraction
    let shift := 52 - highest
    (fraction <<< shift.toNat, highest - 1074)
  else ((1#64 <<< 52) ||| fraction, oldExponent - 1023)

/-- The last branch of `ldexp`: a result below the normal numbers is rounded, ties to even. -/
def ldexpSubnormal (sign significand : BitVec 64) (shift : Nat) : F64 :=
  let rounded := significand >>> shift
  let remainder := significand &&& ((1#64 <<< shift) - 1#64)
  let halfway := 1#64 <<< (shift - 1)
  if halfway < remainder ∨ remainder = halfway ∧ rounded &&& 1#64 ≠ 0#64 then
    ⟨sign ||| (rounded + 1#64)⟩
  else ⟨sign ||| rounded⟩

/-- The function `ldexp`. -/
def ldexp (value : F64) (exponent : Int32) : F64 :=
  let bits := value.bits
  let sign := signBits bits
  let oldExponent : Int := (exponentBits bits).toNat
  let fraction := fractionBits bits
  if oldExponent = 0x7ff ∨ oldExponent = 0 ∧ fraction = 0 then value
  else
    let (significand, unbiased) := normalize oldExponent fraction
    let unbiased := unbiased + exponent.toInt
    if 1023 < unbiased then ⟨sign ||| (0x7ff#64 <<< 52)⟩
    else if -1022 ≤ unbiased then
      let newExponent := BitVec.ofNat 64 (unbiased + 1023).toNat
      ⟨sign ||| (newExponent <<< 52) ||| fractionBits significand⟩
    else
      let shift := -1022 - unbiased
      if 53 < shift then ⟨sign⟩
      else ldexpSubnormal sign significand shift.toNat

/-! ### Bit fields -/

section Fields

variable (x : F64)

theorem toNat_signBits : (signBits x.bits).toNat = if x.negative then 2 ^ 63 else 0 := by
  have hone : (1#64 <<< 63).toNat = 2 ^ 63 := rfl
  rw [signBits, BitVec.toNat_and, hone, Nat.and_two_pow, F64.negative, BitVec.getLsbD]
  cases x.bits.toNat.testBit 63 <;> rfl

theorem toNat_exponentBits : (exponentBits x.bits).toNat = x.exponentField := by
  have hmask : (0x7ff#64).toNat = 2 ^ 11 - 1 := rfl
  rw [exponentBits, BitVec.toNat_and, hmask, Nat.and_two_pow_sub_one_eq_mod,
    BitVec.toNat_ushiftRight, Nat.shiftRight_eq_div_pow, F64.exponentField]

theorem toNat_fractionBits (bits : BitVec 64) : (fractionBits bits).toNat = bits.toNat % 2 ^ 52 := by
  have hmask : ((1#64 <<< 52) - 1#64).toNat = 2 ^ 52 - 1 := rfl
  rw [fractionBits, BitVec.toNat_and, hmask, Nat.and_two_pow_sub_one_eq_mod]

/-- The sign in front of 63 bits. -/
theorem sign_or {rest : BitVec 64} (h : rest.toNat < 2 ^ 63) :
    (⟨signBits x.bits ||| rest⟩ : F64) = F64.ofMagnitude x.negative rest.toNat := by
  rw [F64.ofMagnitude, F64.mk.injEq]
  apply BitVec.eq_of_toNat_eq
  rw [BitVec.toNat_or, toNat_signBits, BitVec.toNat_ofNat]
  cases x.negative
  · simp only [Bool.false_eq_true, if_false, Nat.zero_or, Nat.zero_add]
    omega
  · have hor := Nat.two_pow_add_eq_or_of_lt h 1
    rw [Nat.mul_one] at hor
    simp only [if_true]
    omega

/-- An exponent in front of 52 bits. -/
theorem toNat_exponent_or {e f : BitVec 64} (he : e.toNat < 2 ^ 11) (hf : f.toNat < 2 ^ 52) :
    (e <<< 52 ||| f).toNat = e.toNat * 2 ^ 52 + f.toNat := by
  have hor := Nat.two_pow_add_eq_or_of_lt hf e.toNat
  have hshift : (e <<< 52).toNat = 2 ^ 52 * e.toNat := by
    rw [BitVec.toNat_shiftLeft, Nat.shiftLeft_eq, Nat.mul_comm]
    omega
  rw [BitVec.toNat_or, hshift, ← hor, Nat.mul_comm]

end Fields

/-! ### Normal form -/

section Normalize

variable {x : F64}

/-- The test for an infinity, a NaN or a zero. -/
theorem special_iff : ((exponentBits x.bits).toNat : Int) = 0x7ff
    ∨ ((exponentBits x.bits).toNat : Int) = 0 ∧ fractionBits x.bits = 0
      ↔ x.isFinite = false ∨ x.significand = 0 := by
  have hfraction : fractionBits x.bits = 0 ↔ x.fractionField = 0 := by
    rw [← BitVec.toNat_inj, toNat_fractionBits]
    rfl
  rw [toNat_exponentBits, hfraction, F64.isFinite, F64.significand, bne_eq_false_iff_eq]
  split <;> omega

/-- A fraction shifted until its leading bit is the 53rd. -/
theorem toNat_shift_leading {f : BitVec 64} (hne : f.toNat ≠ 0) (hlt : f.toNat < 2 ^ 52) :
    leadingZeros f = 63 - f.toNat.log2 ∧ f.toNat.log2 ≤ 51
      ∧ (f <<< (52 - f.toNat.log2)).toNat = f.toNat * 2 ^ (52 - f.toNat.log2)
      ∧ 2 ^ 52 ≤ f.toNat * 2 ^ (52 - f.toNat.log2)
      ∧ f.toNat * 2 ^ (52 - f.toNat.log2) < 2 ^ 53 := by
  have hlog : f.toNat.log2 < 52 := (Nat.log2_lt hne).mpr hlt
  have hlo := Nat.log2_self_le hne
  have hhi := @Nat.lt_log2_self f.toNat
  have hge : 2 ^ 52 ≤ f.toNat * 2 ^ (52 - f.toNat.log2) := by
    calc 2 ^ 52 = 2 ^ f.toNat.log2 * 2 ^ (52 - f.toNat.log2) := by
          rw [← pow_add]
          congr 1
          omega
      _ ≤ f.toNat * 2 ^ (52 - f.toNat.log2) := Nat.mul_le_mul_right _ hlo
  have hupper : f.toNat * 2 ^ (52 - f.toNat.log2) < 2 ^ 53 := by
    calc f.toNat * 2 ^ (52 - f.toNat.log2)
        < 2 ^ (f.toNat.log2 + 1) * 2 ^ (52 - f.toNat.log2) :=
          Nat.mul_lt_mul_of_pos_right hhi (Nat.two_pow_pos _)
      _ = 2 ^ 53 := by
          rw [← pow_add]
          congr 1
          omega
  refine ⟨by rw [leadingZeros, if_neg hne], by omega, ?_, hge, hupper⟩
  rw [BitVec.toNat_shiftLeft, Nat.shiftLeft_eq, Nat.mod_eq_of_lt (by omega)]

/-- A number other than zero as a 53-bit significand and the exponent of its leading bit. -/
theorem normalize_spec (hfinite : x.isFinite = true) (hne : x.significand ≠ 0) :
    ∃ (s : BitVec 64) (u : Int),
      normalize (exponentBits x.bits).toNat (fractionBits x.bits) = (s, u)
      ∧ 2 ^ 52 ≤ s.toNat ∧ s.toNat < 2 ^ 53 ∧ -1074 ≤ u ∧ u ≤ 1023
      ∧ x.magnitude = s.toNat * (2 : ℚ) ^ (u - 52) := by
  have hexponent : x.exponentField < 2 ^ 11 := Nat.mod_lt _ (by norm_num)
  have hfraction : (fractionBits x.bits).toNat = x.fractionField := toNat_fractionBits _
  have hlt : x.fractionField < 2 ^ 52 := Nat.mod_lt _ (by norm_num)
  have hfield : x.exponentField ≠ 2047 := by simpa [F64.isFinite] using hfinite
  rw [toNat_exponentBits]
  by_cases hzero : x.exponentField = 0
  · rw [F64.significand, if_pos hzero] at hne
    obtain ⟨hleading, hlog, hshift, hge, hupper⟩ :=
      @toNat_shift_leading (fractionBits x.bits) (by omega) (by omega)
    have hhighest : (63 : Int) - leadingZeros (fractionBits x.bits)
        = (fractionBits x.bits).toNat.log2 := by omega
    have hamount : ((52 : Int) - (fractionBits x.bits).toNat.log2).toNat
        = 52 - (fractionBits x.bits).toNat.log2 := by omega
    refine ⟨_, _, by rw [normalize, if_pos (by exact_mod_cast hzero)], ?_⟩
    rw [hhighest, hamount, hshift]
    refine ⟨hge, hupper, by omega, by omega, ?_⟩
    rw [F64.magnitude, F64.significand, F64.scale, if_pos hzero, if_pos hzero, ← hfraction]
    rw [Nat.cast_mul, Nat.cast_pow, Nat.cast_ofNat, mul_assoc, ← zpow_natCast,
      ← zpow_add₀ (by norm_num)]
    congr 2
    omega
  · have hor := @toNat_exponent_or 1#64 (fractionBits x.bits) (by decide) (by omega)
    have hone : (1#64).toNat = 1 := rfl
    rw [hone, hfraction, Nat.one_mul] at hor
    refine ⟨_, _, by rw [normalize, if_neg (by exact_mod_cast hzero)], ?_⟩
    rw [hor]
    refine ⟨by omega, by omega, by omega, by omega, ?_⟩
    rw [F64.magnitude, F64.significand, F64.scale, if_neg hzero, if_neg hzero]
    have hscale : (x.exponentField : Int) - 1023 - 52 = x.exponentField - 1075 := by ring
    rw [hscale]
    push_cast
    ring

end Normalize

/-! ### `ldexp` rounds correctly -/

section Round

/-- The rounding of a shift, on the bits. -/
theorem roundHalfEven_shift (s shift : Nat) (hshift : 0 < shift) :
    roundHalfEven ((s : ℚ) / 2 ^ shift)
      = if 2 ^ (shift - 1) < s % 2 ^ shift
          ∨ s % 2 ^ shift = 2 ^ (shift - 1) ∧ s / 2 ^ shift % 2 ≠ 0
        then (s / 2 ^ shift : Nat) + 1 else (s / 2 ^ shift : Nat) := by
  have hpos : (0 : ℚ) < 2 ^ shift := by positivity
  have hfloor : ⌊(s : ℚ) / 2 ^ shift⌋ = (s / 2 ^ shift : Nat) := by
    have := Rat.floor_natCast_div_natCast s (2 ^ shift)
    push_cast at this ⊢
    exact this
  have hdouble : (2 : ℚ) ^ shift = 2 * 2 ^ (shift - 1) := by
    rw [← pow_succ']
    congr 1
    omega
  have hrest : (s : ℚ) / 2 ^ shift - (s / 2 ^ shift : Nat) = (s % 2 ^ shift : Nat) / 2 ^ shift := by
    have hsplit := Nat.div_add_mod s (2 ^ shift)
    have hcast : (2 : ℚ) ^ shift * (s / 2 ^ shift : Nat) + (s % 2 ^ shift : Nat) = s := by
      exact_mod_cast hsplit
    rw [eq_div_iff hpos.ne', sub_mul, div_mul_cancel₀ _ hpos.ne']
    linarith
  have hlt : ((s % 2 ^ shift : Nat) : ℚ) / 2 ^ shift < 1 / 2 ↔ s % 2 ^ shift < 2 ^ (shift - 1) := by
    rw [div_lt_iff₀ hpos, hdouble, ← mul_assoc, one_div_mul_cancel (by norm_num), one_mul]
    exact_mod_cast Iff.rfl
  have hgt : 1 / 2 < ((s % 2 ^ shift : Nat) : ℚ) / 2 ^ shift ↔ 2 ^ (shift - 1) < s % 2 ^ shift := by
    rw [lt_div_iff₀ hpos, hdouble, ← mul_assoc, one_div_mul_cancel (by norm_num), one_mul]
    exact_mod_cast Iff.rfl
  unfold roundHalfEven
  rw [hfloor, Int.cast_natCast, hrest]
  simp only [hlt, hgt]
  split_ifs <;> omega

/-- The bit tests of the last branch are those of rounding to even. -/
theorem ldexpSubnormal_eq (x : F64) {significand : BitVec 64} {shift : Nat}
    (hs : significand.toNat < 2 ^ 53) (hpos : 0 < shift) (hle : shift ≤ 53) :
    ldexpSubnormal (signBits x.bits) significand shift = F64.ofMagnitude x.negative
      (roundHalfEven ((significand.toNat : ℚ) / 2 ^ shift)).toNat := by
  have hpow : 2 ^ shift ≤ 2 ^ 53 := Nat.pow_le_pow_right (by norm_num) hle
  have hhalf : 2 ^ (shift - 1) ≤ 2 ^ 53 := Nat.pow_le_pow_right (by norm_num) (by omega)
  have hquotient : significand.toNat / 2 ^ shift < 2 ^ 53 :=
    lt_of_le_of_lt (Nat.div_le_self _ _) hs
  have hrounded : (significand >>> shift).toNat = significand.toNat / 2 ^ shift := by
    rw [BitVec.toNat_ushiftRight, Nat.shiftRight_eq_div_pow]
  have hone : ∀ k, 2 ^ k ≤ 2 ^ 53 → (1#64 <<< k).toNat = 2 ^ k := by
    intro k hk
    rw [BitVec.toNat_shiftLeft, Nat.shiftLeft_eq]
    show 1 * 2 ^ k % 2 ^ 64 = _
    omega
  have hmask : ((1#64 <<< shift) - 1#64).toNat = 2 ^ shift - 1 := by
    have hshift := hone shift hpow
    have := Nat.two_pow_pos shift
    rw [BitVec.toNat_sub_of_le, hshift]
    · rfl
    · rw [BitVec.le_def, hshift]
      exact this
  have hremainder : (significand &&& ((1#64 <<< shift) - 1#64)).toNat
      = significand.toNat % 2 ^ shift := by
    rw [BitVec.toNat_and, hmask, Nat.and_two_pow_sub_one_eq_mod]
  have hodd : (significand >>> shift) &&& 1#64 ≠ 0#64 ↔ significand.toNat / 2 ^ shift % 2 ≠ 0 := by
    have hlast : ((significand >>> shift) &&& 1#64).toNat = significand.toNat / 2 ^ shift % 2 := by
      rw [BitVec.toNat_and, hrounded]
      exact Nat.and_one_is_mod _
    rw [Ne, ← BitVec.toNat_inj, hlast]
    rfl
  have htest : (1#64 <<< (shift - 1) < significand &&& ((1#64 <<< shift) - 1#64)
        ∨ significand &&& ((1#64 <<< shift) - 1#64) = 1#64 <<< (shift - 1)
          ∧ (significand >>> shift) &&& 1#64 ≠ 0#64)
      ↔ (2 ^ (shift - 1) < significand.toNat % 2 ^ shift
        ∨ significand.toNat % 2 ^ shift = 2 ^ (shift - 1)
          ∧ significand.toNat / 2 ^ shift % 2 ≠ 0) := by
    rw [hodd, BitVec.lt_def, ← BitVec.toNat_inj, hremainder, hone _ hhalf]
  have hnext : ((significand >>> shift) + 1#64).toNat = significand.toNat / 2 ^ shift + 1 := by
    rw [BitVec.toNat_add, hrounded]
    show (_ + 1) % 2 ^ 64 = _
    omega
  rw [roundHalfEven_shift _ _ hpos, ldexpSubnormal]
  simp only [htest]
  split
  · rw [sign_or x (by rw [hnext]; omega), hnext]
    congr 1
  · rw [sign_or x (by rw [hrounded]; omega), hrounded]
    congr 1

/-- The leading bit of a scaled 53-bit significand. -/
theorem log_scaled {s : Nat} (hlo : 2 ^ 52 ≤ s) (hhi : s < 2 ^ 53) (v : Int) :
    0 < (s : ℚ) * (2 : ℚ) ^ (v - 52) ∧ Int.log 2 ((s : ℚ) * (2 : ℚ) ^ (v - 52)) = v := by
  have hpos : (0 : ℚ) < (2 : ℚ) ^ (v - 52) := zpow_pos (by norm_num) _
  have hlo' : (2 : ℚ) ^ 52 ≤ s := by exact_mod_cast hlo
  have hhi' : (s : ℚ) < 2 ^ 53 := by exact_mod_cast hhi
  have hq : 0 < (s : ℚ) * (2 : ℚ) ^ (v - 52) := mul_pos (by linarith) hpos
  have hge : ((2 : Nat) : ℚ) ^ v ≤ (s : ℚ) * (2 : ℚ) ^ (v - 52) := by
    calc ((2 : Nat) : ℚ) ^ v = 2 ^ 52 * (2 : ℚ) ^ (v - 52) := by
          rw [← zpow_natCast, ← zpow_add₀ (by norm_num), Nat.cast_ofNat]
          congr 1
          ring
      _ ≤ _ := mul_le_mul_of_nonneg_right hlo' hpos.le
  have hlt : (s : ℚ) * (2 : ℚ) ^ (v - 52) < ((2 : Nat) : ℚ) ^ (v + 1) := by
    calc (s : ℚ) * (2 : ℚ) ^ (v - 52) < 2 ^ 53 * (2 : ℚ) ^ (v - 52) :=
          mul_lt_mul_of_pos_right hhi' hpos
      _ = ((2 : Nat) : ℚ) ^ (v + 1) := by
          rw [← zpow_natCast, ← zpow_add₀ (by norm_num), Nat.cast_ofNat]
          congr 1
          ring
  refine ⟨hq, le_antisymm ?_ ?_⟩
  · have := (Int.lt_zpow_iff_log_lt (by norm_num) hq).mp hlt
    omega
  · exact (Int.zpow_le_iff_le_log (by norm_num) hq).mp hge

/-- The magnitude bits of a 53-bit significand at a normal exponent. -/
theorem magnitudeBits_normal {s : Nat} (hlo : 2 ^ 52 ≤ s) (hhi : s < 2 ^ 53) {v : Int}
    (hv : -1022 ≤ v) :
    F64.magnitudeBits ((s : ℚ) * (2 : ℚ) ^ (v - 52)) = (v + 1022).toNat * 2 ^ 52 + s := by
  obtain ⟨hq, hlog⟩ := log_scaled hlo hhi v
  have hunit : F64.unit (v + 1022).toNat = (2 : ℚ) ^ (v - 52) := by
    rw [F64.unit]
    congr 1
    omega
  rw [F64.magnitudeBits, if_neg hq.ne', F64.roundingStep, hlog, hunit,
    mul_div_cancel_right₀ _ (zpow_pos (by norm_num) _).ne']
  have hround := roundHalfEven_intCast (s : Int)
  rw [Int.cast_natCast] at hround
  rw [hround, Int.toNat_natCast]

/-- Below the normal exponents the significand is shifted out and rounded. -/
theorem magnitudeBits_subnormal {s : Nat} (hlo : 2 ^ 52 ≤ s) (hhi : s < 2 ^ 53) {v : Int}
    (hv : v < -1022) :
    F64.magnitudeBits ((s : ℚ) * (2 : ℚ) ^ (v - 52))
      = (roundHalfEven ((s : ℚ) / 2 ^ (-1022 - v).toNat)).toNat := by
  obtain ⟨hq, hlog⟩ := log_scaled hlo hhi v
  have hstep : (v + 1022).toNat = 0 := by omega
  have hscale : (s : ℚ) * (2 : ℚ) ^ (v - 52) / F64.unit 0
      = (s : ℚ) / 2 ^ (-1022 - v).toNat := by
    rw [F64.unit, mul_div_assoc, ← zpow_sub₀ (by norm_num), div_eq_mul_inv, ← zpow_natCast,
      ← zpow_neg]
    congr 2
    omega
  rw [F64.magnitudeBits, if_neg hq.ne', F64.roundingStep, hlog, hstep, hscale, Nat.zero_mul,
    Nat.zero_add]

/-- What is shifted out leaves less than 53 bits. -/
theorem roundHalfEven_shift_le {s shift : Nat} (hhi : s < 2 ^ 53) (hpos : 0 < shift) :
    (roundHalfEven ((s : ℚ) / 2 ^ shift)).toNat ≤ 2 ^ 52 := by
  have hle : roundHalfEven ((s : ℚ) / 2 ^ shift) ≤ 2 ^ 52 := by
    apply roundHalfEven_le
    have hs : (s : ℚ) < 2 ^ 53 := by exact_mod_cast hhi
    have htwo : (2 : ℚ) ^ 1 ≤ 2 ^ shift := pow_le_pow_right₀ (by norm_num) hpos
    rw [div_le_iff₀ (by positivity)]
    push_cast
    linarith
  omega

/-- A shift by more than 53 bits leaves less than half a unit. -/
theorem roundHalfEven_shift_far {s shift : Nat} (hhi : s < 2 ^ 53) (hfar : 53 < shift) :
    (roundHalfEven ((s : ℚ) / 2 ^ shift)).toNat = 0 := by
  have hhalf : 2 ^ 53 ≤ 2 ^ (shift - 1) := Nat.pow_le_pow_right (by norm_num) (by omega)
  have hfull : 2 ^ 53 ≤ 2 ^ shift := Nat.pow_le_pow_right (by norm_num) (by omega)
  have hmod : s % 2 ^ shift = s := Nat.mod_eq_of_lt (hhi.trans_le hfull)
  have hdiv : s / 2 ^ shift = 0 := Nat.div_eq_of_lt (hhi.trans_le hfull)
  rw [roundHalfEven_shift s shift (by omega), hmod, hdiv, if_neg]
  · rfl
  · rintro (h | ⟨-, h⟩)
    · exact absurd (hhi.trans_le hhalf) (Nat.not_lt.mpr h.le)
    · exact h rfl

end Round

/-- Zeros are not changed by a scaling. -/
theorem ofRat_of_significand {x : F64} (hfinite : x.isFinite = true) (hzero : x.significand = 0)
    (q : ℚ) : F64.ofRat x.negative (x.toRat * q) = x := by
  have hrat : x.toRat = 0 := by
    rw [F64.toRat, hzero]
    simp
  have hsame := F64.ofRat_toRat hfinite
  rw [hrat] at hsame
  rw [hrat, zero_mul, hsame]

/-- `ldexp` gives the correctly rounded product. -/
theorem ldexp_eq_ofRat {x : F64} (hfinite : x.isFinite = true) (e : Int32) :
    ldexp x e = F64.ofRat x.negative (x.toRat * (2 : ℚ) ^ e.toInt) := by
  rw [ldexp]
  simp only [special_iff, hfinite, Bool.true_eq_false, false_or]
  by_cases hzero : x.significand = 0
  · rw [if_pos hzero, ofRat_of_significand hfinite hzero]
  rw [if_neg hzero]
  obtain ⟨s, u, hnormalize, hlo, hhi, -, -, hmag⟩ := normalize_spec hfinite hzero
  rw [hnormalize]
  have hscaled : |x.toRat * (2 : ℚ) ^ e.toInt|
      = (s.toNat : ℚ) * (2 : ℚ) ^ (u + e.toInt - 52) := by
    rw [abs_mul, F64.abs_toRat, hmag, abs_of_pos (zpow_pos (by norm_num) _), mul_assoc,
      ← zpow_add₀ (by norm_num)]
    congr 2
    ring
  rw [F64.ofRat, hscaled]
  show (if 1023 < u + e.toInt then _ else if -1022 ≤ u + e.toInt then _ else _) = _
  generalize u + e.toInt = v
  by_cases hover : 1023 < v
  · -- overflow
    rw [if_pos hover, magnitudeBits_normal hlo hhi (by omega), if_pos (by omega)]
    exact sign_or x (by decide)
  rw [if_neg hover]
  by_cases hnormal : -1022 ≤ v
  · rw [if_pos hnormal, magnitudeBits_normal hlo hhi hnormal, if_neg (by omega), BitVec.or_assoc]
    have hexponent : (BitVec.ofNat 64 (v + 1023).toNat).toNat = (v + 1023).toNat := by
      rw [BitVec.toNat_ofNat]
      omega
    have hrest := @toNat_exponent_or (BitVec.ofNat 64 (v + 1023).toNat) (fractionBits s)
      (by rw [hexponent]; omega) (by rw [toNat_fractionBits]; omega)
    rw [hexponent, toNat_fractionBits] at hrest
    have hbits : (v + 1023).toNat * 2 ^ 52 + s.toNat % 2 ^ 52
        = (v + 1022).toNat * 2 ^ 52 + s.toNat := by
      have hnext : (v + 1023).toNat = (v + 1022).toNat + 1 := by omega
      have hlow : s.toNat % 2 ^ 52 = s.toNat - 2 ^ 52 := by omega
      rw [hnext, hlow, Nat.add_mul]
      omega
    rw [sign_or x (by rw [hrest]; omega), hrest, hbits]
  · rw [if_neg hnormal, magnitudeBits_subnormal hlo hhi (by omega)]
    obtain ⟨shift, hshift⟩ : ∃ shift : Nat, -1022 - v = shift := ⟨(-1022 - v).toNat, by omega⟩
    have hpos : 0 < shift := by omega
    rw [hshift, Int.toNat_natCast]
    have hsmall := roundHalfEven_shift_le hhi hpos
    by_cases hfar : 53 < shift
    · rw [if_pos (by exact_mod_cast hfar), if_neg (by omega), roundHalfEven_shift_far hhi hfar]
      have hsign := @sign_or x 0#64 (by decide)
      rw [BitVec.or_zero] at hsign
      exact hsign
    · rw [if_neg (by exact_mod_cast hfar), if_neg (by omega)]
      exact ldexpSubnormal_eq x hhi hpos (by omega)

/-! ### `frexp` splits exactly -/

/-- The fraction that `frexp` assembles from a 53-bit significand. -/
theorem frexp_fraction (x : F64) {f : BitVec 64} (hf : f.toNat < 2 ^ 52) :
    (⟨signBits x.bits ||| (1022#64 <<< 52) ||| f⟩ : F64)
      = F64.ofMagnitude x.negative (1021 * 2 ^ 52 + (2 ^ 52 + f.toNat)) := by
  have hrest := @toNat_exponent_or 1022#64 f (by decide) hf
  have hexponent : (1022#64).toNat = 1022 := rfl
  rw [hexponent] at hrest
  rw [BitVec.or_assoc, sign_or x (by rw [hrest]; omega), hrest]
  congr 1
  omega

/-- What `frexp` promises: the fraction has the sign of the number and lies in `[1/2, 1)`, and the
    number is the fraction times a power of two. -/
structure Splits (x m : F64) (e : Int) : Prop where
  finite : m.isFinite = true
  sign : m.negative = x.negative
  half : x.toRat ≠ 0 → 1 / 2 ≤ |m.toRat| ∧ |m.toRat| < 1
  zero : x.toRat = 0 → m.toRat = 0
  product : m.toRat * (2 : ℚ) ^ e = x.toRat
  range : -1073 ≤ e ∧ e ≤ 1024

/-- `frexp` in terms of the normal form. -/
theorem frexp_eq {x : F64} (hfinite : x.isFinite = true) (hne : x.significand ≠ 0)
    {s : BitVec 64} {u : Int}
    (hnormalize : normalize (exponentBits x.bits).toNat (fractionBits x.bits) = (s, u))
    (hlo : 2 ^ 52 ≤ s.toNat) (hhi : s.toNat < 2 ^ 53) :
    frexp x = (F64.ofMagnitude x.negative (1021 * 2 ^ 52 + s.toNat), u + 1) := by
  have hfraction : (fractionBits x.bits).toNat < 2 ^ 52 := by
    rw [toNat_fractionBits]
    omega
  rw [frexp]
  simp only [special_iff, hfinite, Bool.true_eq_false, false_or]
  rw [if_neg hne]
  unfold normalize at hnormalize
  by_cases hzero : ((exponentBits x.bits).toNat : Int) = 0
  · rw [if_pos hzero] at hnormalize
    obtain ⟨hs, hu⟩ := Prod.mk.inj hnormalize
    rw [if_neg (not_not.mpr hzero), hs, frexp_fraction x (by rw [toNat_fractionBits]; omega),
      toNat_fractionBits]
    congr 1
    · congr 1
      omega
    · omega
  · rw [if_neg hzero] at hnormalize
    obtain ⟨hs, hu⟩ := Prod.mk.inj hnormalize
    have hor := @toNat_exponent_or 1#64 (fractionBits x.bits) (by decide) hfraction
    have hone : (1#64).toNat = 1 := rfl
    rw [hs, hone, Nat.one_mul] at hor
    rw [if_pos hzero, frexp_fraction x hfraction, ← hor]
    congr 1
    omega

theorem frexp_splits {x : F64} (hfinite : x.isFinite = true) :
    Splits x (frexp x).1 (frexp x).2 := by
  by_cases hzero : x.significand = 0
  · have hsame : frexp x = (x, 0) := by
      rw [frexp]
      simp only [special_iff]
      rw [if_pos (.inr hzero)]
    have hrat : x.toRat = 0 := by
      rw [F64.toRat, hzero]
      simp
    rw [hsame]
    exact ⟨hfinite, rfl, fun h => absurd hrat h, id, by simp, by norm_num, by norm_num⟩
  · obtain ⟨s, u, hnormalize, hlo, hhi, hmin, hmax, hmag⟩ := normalize_spec hfinite hzero
    rw [frexp_eq hfinite hzero hnormalize hlo hhi]
    have hbits : 1021 * 2 ^ 52 + s.toNat < 2 ^ 63 := by omega
    have hvalue := @F64.magnitude_ofMagnitude x.negative 1021 s.toNat (by omega) (.inl hlo) (by omega)
    have hunit : F64.unit 1021 = 1 / 2 ^ 53 := by
      rw [F64.unit]
      norm_num
    have hlo' : (2 : ℚ) ^ 52 ≤ s.toNat := by exact_mod_cast hlo
    have hhi' : (s.toNat : ℚ) < 2 ^ 53 := by exact_mod_cast hhi
    have hsign := @F64.negative_ofMagnitude x.negative _ hbits
    have hproduct : (s.toNat : ℚ) * F64.unit 1021 * (2 : ℚ) ^ (u + 1) = x.magnitude := by
      rw [hmag, mul_assoc, F64.unit, ← zpow_add₀ (by norm_num)]
      congr 2
      push_cast
      ring
    refine ⟨(F64.isFinite_ofMagnitude hbits).mpr (by omega), hsign, fun _ => ?_, fun h => ?_, ?_,
      by omega, by omega⟩
    · rw [F64.abs_toRat, hvalue, hunit]
      constructor <;> linarith
    · rw [← abs_eq_zero, F64.abs_toRat, hmag] at h
      have hpos : (0 : ℚ) < s.toNat * (2 : ℚ) ^ (u - 52) :=
        mul_pos (by linarith) (zpow_pos (by norm_num) _)
      exact absurd h hpos.ne'
    · rw [F64.toRat_eq_magnitude, hvalue, hsign, F64.toRat_eq_magnitude x, ← hproduct]
      cases x.negative
      · simp
      · simp

/-! ### The laws of the pair -/

/-- `frexp` splits every finite number, `ldexp` puts the parts together again, bit by bit, and
    `ldexp` rounds correctly for every exponent. -/
theorem parts_exact {x : F64} (hfinite : x.isFinite = true) :
    Splits x (frexp x).1 (frexp x).2
      ∧ ldexp (frexp x).1 (Int32.ofInt (frexp x).2) = x
      ∧ ∀ e : Int32, F64.Rounds x.negative (x.toRat * (2 : ℚ) ^ e.toInt) (ldexp x e) := by
  have hsplits := frexp_splits hfinite
  refine ⟨hsplits, ?_, fun e => ?_⟩
  · have hexponent : (Int32.ofInt (frexp x).2).toInt = (frexp x).2 := by
      have hrange := hsplits.range
      apply Int32.toInt_ofInt_of_le <;> omega
    rw [ldexp_eq_ofRat hsplits.finite, hexponent, hsplits.product, hsplits.sign,
      F64.ofRat_toRat hfinite]
  · rw [ldexp_eq_ofRat hfinite]
    apply F64.ofRat_rounds
    have hpos : (0 : ℚ) < (2 : ℚ) ^ e.toInt := zpow_pos (by norm_num) _
    have hsign := x.toRat_sign
    rw [abs_mul, abs_of_pos hpos]
    cases h : x.negative <;> rw [h] at hsign
    · exact congrArg (· * (2 : ℚ) ^ e.toInt) hsign
    · rw [if_pos rfl] at hsign ⊢
      rw [← neg_mul, ← hsign]

/-- The least subnormal. -/
theorem parts_exact_least : (⟨1⟩ : F64).isFinite = true
    ∧ ldexp (frexp ⟨1⟩).1 (Int32.ofInt (frexp ⟨1⟩).2) = ⟨1⟩ :=
  ⟨rfl, (@parts_exact ⟨1⟩ rfl).2.1⟩

end RivetLua.Stdlib.Math
