import RivetLua.Core.Arithmetic

namespace RivetLua.Core

/-!
# Core — laws of division, remainder and shifts

* `IsRemainder` — the remainder of division towards negative infinity;
* `IntegerDivision`, `ShiftLaws`, `FloatModulo` — what the operations have to give;
* `divisionLaws_iff` — the operands for which they do.  A float remainder by an infinity goes
  wrong: the formula `a - floor(a / b) * b` multiplies a zero by an infinity.
-/

/-! ### The laws -/

/-- `r` is what is left of `a` when a multiple of `b` is taken off; it is zero or has the sign of
    `b`, and is smaller than `b`. -/
structure IsRemainder (a b r : Int) : Prop where
  dvd : b ∣ a - r
  sign : r = 0 ∨ 0 < r ∧ 0 < b ∨ r < 0 ∧ b < 0
  lt : r.natAbs < b.natAbs

namespace Number

/-- Division of two integers. -/
structure IntegerDivision (a b : Int64) : Prop where
  floor : floorDivide (.integer a) (.integer b)
    = .ok (.integer (Int64.ofInt ⌊(a.toInt : ℚ) / b.toInt⌋))
  remainder : ∃ r : Int64, modulo (.integer a) (.integer b) = .ok (.integer r)
    ∧ IsRemainder a.toInt b.toInt r.toInt
    ∧ ∀ r', IsRemainder a.toInt b.toInt r' → r' = r.toInt
  split : ∀ q r : Int64, floorDivide (.integer a) (.integer b) = .ok (.integer q) →
    modulo (.integer a) (.integer b) = .ok (.integer r) → a = q * b + r

/-- Shifts of an integer by an integer. -/
structure ShiftLaws (x s : Int64) : Prop where
  left : 0 ≤ s.toInt → s.toInt < 64 →
    shiftLeft (.integer x) (.integer s) = .ok (.integer (Int64.ofInt (x.toInt * 2 ^ s.toInt.toNat)))
  right : -64 < s.toInt → s.toInt < 0 →
    shiftLeft (.integer x) (.integer s)
      = .ok (.integer (Int64.ofInt (x.toBitVec.toNat / 2 ^ (-s.toInt).toNat : Nat)))
  out : s.toInt ≤ -64 ∨ 64 ≤ s.toInt → shiftLeft (.integer x) (.integer s) = .ok (.integer 0)
  opposite : s ≠ Int64.minValue →
    shiftRight (.integer x) (.integer s) = shiftLeft (.integer x) (.integer (-s))
  least : s = Int64.minValue → shiftRight (.integer x) (.integer s) = .ok (.integer 0)
    ∧ shiftLeft (.integer x) (.integer s) = .ok (.integer 0)

/-- The remainder of a finite float by an infinity. -/
def FloatModulo (x y : F64) : Prop :=
  ∃ r : F64, modulo (.float x) (.float y) = .ok (.float r)
    ∧ r.eq (if x.toRat = 0 ∨ x.negative = y.negative then x else y) = true

/-- The laws for one pair of operands. -/
structure DivisionLaws (a b : Number) : Prop where
  floorDivide_error : (∃ e, floorDivide a b = .error e) ↔ (∃ i, a = .integer i) ∧ b = .integer 0
  modulo_error : (∃ e, modulo a b = .error e) ↔ (∃ i, a = .integer i) ∧ b = .integer 0
  division : ∀ i j, a = .integer i → b = .integer j → j ≠ 0 → IntegerDivision i j
  shift : ∀ x s, a = .integer x → b = .integer s → ShiftLaws x s
  float : ∀ x y, a = .float x → b = .float y → x.isFinite = true → y.isInfinite = true →
    FloatModulo x y

end Number

/-! ### Division of integers -/

section Division

variable {a b r : Int}

/-- The remainder is determined by the operands. -/
theorem IsRemainder.unique {r' : Int} (h : IsRemainder a b r) (h' : IsRemainder a b r') :
    r' = r := by
  have hdvd : b ∣ r' - r := by
    have := dvd_sub h.dvd h'.dvd
    rwa [sub_sub_sub_cancel_left] at this
  have hlt : (r' - r).natAbs < b.natAbs := by
    have h1 := h.lt
    have h2 := h'.lt
    have h3 := h.sign
    have h4 := h'.sign
    omega
  have hzero := Int.eq_zero_of_dvd_of_natAbs_lt_natAbs hdvd hlt
  omega

/-- The quotient that leaves the remainder is the rounded-down one. -/
theorem IsRemainder.floor {q : Int} (hb : b ≠ 0) (h : IsRemainder a b r) (hq : a = b * q + r) :
    ⌊(a : ℚ) / b⌋ = q := by
  have hb' : (b : ℚ) ≠ 0 := by exact_mod_cast hb
  have hsplit : (a : ℚ) / b = q + (r : ℚ) / b := by
    rw [hq]
    push_cast
    rw [add_div, mul_div_cancel_left₀ _ hb']
  have hlt := h.lt
  have hsign := h.sign
  have hnonneg : 0 ≤ (r : ℚ) / b := by
    rcases hsign with rfl | ⟨hr, hpos⟩ | ⟨hr, hneg⟩
    · simp
    · exact div_nonneg (by exact_mod_cast hr.le) (by exact_mod_cast hpos.le)
    · exact div_nonneg_of_nonpos (by exact_mod_cast hr.le) (by exact_mod_cast hneg.le)
  have hone : (r : ℚ) / b < 1 := by
    have habs : |(r : ℚ) / b| < 1 := by
      rw [abs_div, div_lt_one (abs_pos.mpr hb')]
      have hint : |r| < |b| := by
        rw [Int.abs_eq_natAbs, Int.abs_eq_natAbs]
        exact_mod_cast hlt
      exact_mod_cast hint
    exact (abs_lt.mp habs).2
  rw [hsplit, Int.floor_eq_iff]
  constructor <;> linarith

/-- The truncated remainder, corrected where its sign is not that of the divisor. -/
def correctedRemainder (a b : Int) : Int :=
  if a.tmod b ≠ 0 ∧ ¬ (0 < a.tmod b ↔ 0 < b) then a.tmod b + b else a.tmod b

/-- The truncated quotient, corrected in the same case. -/
def correctedQuotient (a b : Int) : Int :=
  if a.tmod b ≠ 0 ∧ ¬ (0 < a.tmod b ↔ 0 < b) then a.tdiv b - 1 else a.tdiv b

theorem corrected_split (a b : Int) : a = b * correctedQuotient a b + correctedRemainder a b := by
  have hsplit := Int.mul_tdiv_add_tmod a b
  unfold correctedQuotient correctedRemainder
  split
  · rw [mul_sub, mul_one]
    omega
  · exact hsplit.symm

theorem isRemainder_corrected (hb : b ≠ 0) : IsRemainder a b (correctedRemainder a b) := by
  refine ⟨⟨correctedQuotient a b, ?_⟩, ?_, ?_⟩
  · have := corrected_split a b
    omega
  all_goals
    have hlt : (a.tmod b).natAbs < b.natAbs := by
      rw [Int.natAbs_tmod]
      exact Nat.mod_lt _ (Int.natAbs_pos.mpr hb)
    unfold correctedRemainder
    split <;> omega

end Division

namespace Number

section Integers

variable {a b : Int64}

theorem needsCorrection_eq_true (a b : Int64) : needsCorrection (a % b) b = true ↔
    a.toInt.tmod b.toInt ≠ 0 ∧ ¬ (0 < a.toInt.tmod b.toInt ↔ 0 < b.toInt) := by
  have hzero : a % b ≠ 0 ↔ a.toInt.tmod b.toInt ≠ 0 := by
    rw [← Int64.toInt_mod, Ne, ← Int64.toInt_inj]
    rfl
  have hpos : ∀ x : Int64, 0 < x ↔ 0 < x.toInt := fun x => Int64.lt_iff_toInt_lt
  rw [needsCorrection, Bool.and_eq_true, bne_iff_ne, bne_iff_ne, hzero]
  simp only [ne_eq, decide_eq_decide, hpos, Int64.toInt_mod]

theorem toInt_ne_zero (hb : b ≠ 0) : b.toInt ≠ 0 := fun h => hb (Int64.toInt_inj.mp h)

theorem floorDivide_integer (hb : b ≠ 0) : floorDivide (.integer a) (.integer b)
    = .ok (.integer (Int64.ofInt (correctedQuotient a.toInt b.toInt))) := by
  have hdiv : Int64.ofInt (a.toInt.tdiv b.toInt) = a / b := by
    rw [Int64.ofInt_tdiv (Int64.le_toInt a) (Int64.toInt_le a) (Int64.le_toInt b)
      (Int64.toInt_le b), Int64.ofInt_toInt, Int64.ofInt_toInt]
  rw [floorDivide, if_neg hb]
  split
  · rename_i hleast
    rw [hleast.1, hleast.2]
    rfl
  · have hiff := needsCorrection_eq_true a b
    unfold correctedQuotient
    by_cases h : needsCorrection (a % b) b = true
    · rw [if_pos (hiff.mp h), Int64.ofInt_sub, hdiv]
      show Except.ok (Number.integer (if _ then _ else _)) = _
      rw [if_pos h]
      rfl
    · rw [if_neg fun hc => h (hiff.mpr hc), hdiv]
      show Except.ok (Number.integer (if _ then _ else _)) = _
      rw [if_neg h]

theorem modulo_integer (hb : b ≠ 0) : modulo (.integer a) (.integer b)
    = .ok (.integer (Int64.ofInt (correctedRemainder a.toInt b.toInt))) := by
  have hmod : Int64.ofInt (a.toInt.tmod b.toInt) = a % b := by
    rw [← Int64.toInt_mod, Int64.ofInt_toInt]
  rw [modulo, if_neg hb]
  split
  · rename_i hleast
    rw [hleast.1, hleast.2]
    rfl
  · have hiff := needsCorrection_eq_true a b
    unfold correctedRemainder
    by_cases h : needsCorrection (a % b) b = true
    · rw [if_pos (hiff.mp h), Int64.ofInt_add, hmod, Int64.ofInt_toInt]
      show Except.ok (Number.integer (if _ then _ else _)) = _
      rw [if_pos h]
    · rw [if_neg fun hc => h (hiff.mpr hc), hmod]
      show Except.ok (Number.integer (if _ then _ else _)) = _
      rw [if_neg h]

/-- A remainder is an `i64`, as it is smaller than the divisor. -/
theorem toInt_correctedRemainder (hb : b ≠ 0) :
    (Int64.ofInt (correctedRemainder a.toInt b.toInt)).toInt
      = correctedRemainder a.toInt b.toInt := by
  have hrem := isRemainder_corrected (a := a.toInt) (toInt_ne_zero hb)
  have hlo : -9223372036854775808 ≤ b.toInt := Int64.minValue_le_toInt b
  have hhi : b.toInt ≤ 9223372036854775807 := Int64.toInt_le b
  have hlt := hrem.lt
  have hsign := hrem.sign
  apply Int64.toInt_ofInt_of_le <;> omega

theorem integerDivision (hb : b ≠ 0) : IntegerDivision a b := by
  have hrem := isRemainder_corrected (a := a.toInt) (toInt_ne_zero hb)
  have hsplit := corrected_split a.toInt b.toInt
  refine ⟨?_, ⟨_, modulo_integer hb, ?_, ?_⟩, ?_⟩
  · rw [floorDivide_integer hb, hrem.floor (toInt_ne_zero hb) hsplit]
  · rw [toInt_correctedRemainder hb]
    exact hrem
  · intro r' hr'
    rw [toInt_correctedRemainder hb]
    exact hrem.unique hr'
  · intro q r hq hr
    rw [floorDivide_integer hb] at hq
    rw [modulo_integer hb] at hr
    cases hq
    cases hr
    calc a = Int64.ofInt a.toInt := (Int64.ofInt_toInt a).symm
      _ = Int64.ofInt (correctedQuotient a.toInt b.toInt * b.toInt
          + correctedRemainder a.toInt b.toInt) := by
        rw [mul_comm, ← hsplit]
      _ = _ := by rw [Int64.ofInt_add, Int64.ofInt_mul, Int64.ofInt_toInt]

end Integers

/-! ### Shifts -/

section Shifts

variable (x s : Int64)

theorem shiftLeft_integer : shiftLeft (.integer x) (.integer s)
    = .ok (.integer (shiftInteger x s true)) := rfl

theorem shiftRight_integer : shiftRight (.integer x) (.integer s)
    = .ok (.integer (shiftInteger x s false)) := rfl

theorem toBitVec_shiftLeft (m : Nat) :
    (⟨⟨x.toBitVec <<< m⟩⟩ : Int64) = Int64.ofInt (x.toInt * 2 ^ m) := by
  have htwo : BitVec.ofInt 64 (2 ^ m) = BitVec.twoPow 64 m := by
    rw [show (2 ^ m : Int) = ((2 ^ m : Nat) : Int) by push_cast; rfl, BitVec.ofInt_natCast]
    apply BitVec.eq_of_toNat_eq
    rw [BitVec.toNat_ofNat, BitVec.toNat_twoPow]
  apply Int64.toBitVec_inj.mp
  rw [Int64.toBitVec_ofInt, BitVec.ofInt_mul, ← Int64.toInt_toBitVec, BitVec.ofInt_toInt, htwo]
  exact BitVec.shiftLeft_eq_mul_twoPow _ _

theorem toBitVec_shiftRight (m : Nat) :
    (⟨⟨x.toBitVec >>> m⟩⟩ : Int64) = Int64.ofInt (x.toBitVec.toNat / 2 ^ m : Nat) := by
  apply Int64.toBitVec_inj.mp
  rw [Int64.toBitVec_ofInt, BitVec.ofInt_natCast]
  apply BitVec.eq_of_toNat_eq
  show (x.toBitVec >>> m).toNat = _
  have hlt : x.toBitVec.toNat / 2 ^ m < 2 ^ 64 :=
    lt_of_le_of_lt (Nat.div_le_self _ _) x.toBitVec.isLt
  rw [BitVec.toNat_ushiftRight, Nat.shiftRight_eq_div_pow, BitVec.toNat_ofNat,
    Nat.mod_eq_of_lt hlt]

variable {s}

theorem toInt_neg_of_ne (hs : s ≠ Int64.minValue) : (-s).toInt = -s.toInt := by
  have hlo : -9223372036854775808 ≤ s.toInt := Int64.minValue_le_toInt s
  have hhi : s.toInt ≤ 9223372036854775807 := Int64.toInt_le s
  have hne : s.toInt ≠ -9223372036854775808 := fun h => hs (Int64.toInt_inj.mp h)
  rw [Int64.toInt_neg]
  apply Int.bmod_eq_of_le <;> omega

variable (s)

theorem shiftLaws : ShiftLaws x s := by
  have hnonneg : ∀ t : Int64, 0 ≤ t ↔ 0 ≤ t.toInt := fun t => Int64.le_iff_toInt_le
  refine ⟨fun hge hlt => ?_, fun hgt hneg => ?_, fun hout => ?_, fun hs => ?_, fun hs => ?_⟩
  · have hmagnitude : s.toInt.natAbs = s.toInt.toNat := by omega
    rw [shiftLeft_integer, shiftInteger, if_neg (by omega),
      if_pos (decide_eq_true ((hnonneg s).mpr hge)), hmagnitude, toBitVec_shiftLeft]
  · have hmagnitude : s.toInt.natAbs = (-s.toInt).toNat := by omega
    have hright : ¬ decide (0 ≤ s) = true := by
      rw [decide_eq_true_eq, hnonneg]
      omega
    rw [shiftLeft_integer, shiftInteger, if_neg (by omega), if_neg hright, hmagnitude,
      toBitVec_shiftRight]
  · rw [shiftLeft_integer, shiftInteger, if_pos (by omega)]
  · have hneg := toInt_neg_of_ne hs
    have hmagnitude : (-s).toInt.natAbs = s.toInt.natAbs := by omega
    rw [shiftLeft_integer, shiftRight_integer, shiftInteger, shiftInteger, hmagnitude]
    by_cases hzero : s.toInt = 0
    · -- a shift by zero goes either way
      have hs0 : s = 0 := Int64.toInt_inj.mp hzero
      subst hs0
      have hnone : (Int64.toInt 0).natAbs = 0 := rfl
      rw [hnone, if_neg (by omega), if_neg (by decide), if_neg (by omega), if_pos (by decide),
        BitVec.shiftLeft_zero, BitVec.ushiftRight_zero]
    · have hflip : decide (0 ≤ s) = false ↔ decide (0 ≤ -s) = true := by
        rw [decide_eq_false_iff_not, decide_eq_true_eq, hnonneg, hnonneg]
        omega
      simp only [hflip]
  · subst hs
    exact ⟨rfl, rfl⟩

end Shifts

/-! ### The remainder of a float by an infinity -/

section Floats

variable {x y : F64}

theorem floor_zero (negative : Bool) : (F64.zero negative).floor = F64.zero negative := by
  have hfinite : (F64.zero negative).isFinite = true := by cases negative <;> rfl
  have hsign : (F64.zero negative).negative = negative := by cases negative <;> rfl
  have hsignificand : (F64.zero negative).significand = 0 := by cases negative <;> rfl
  have hrat : (F64.zero negative).toRat = 0 := by
    rw [F64.toRat, hsignificand]
    simp
  rw [F64.floor, if_pos hfinite, hrat, Int.floor_zero, hsign, F64.ofRat, Int.cast_zero, abs_zero,
    F64.magnitudeBits, if_pos rfl, if_neg (by norm_num), F64.zero]

/-- A finite number divided by an infinity is a zero, and stays one when it is rounded down. -/
theorem floor_div_infinite (hx : x.isFinite = true) (hy : y.isInfinite = true) :
    ∃ negative, (x.div y).floor = F64.zero negative := by
  have hdiv : x.div y = F64.zero (x.negative != y.negative) := by
    rw [F64.div, F64.isNan_of_isFinite hx, F64.isNan_of_isInfinite hy, F64.isInfinite_of_isFinite hx, hy]
    rfl
  exact ⟨x.negative != y.negative, by rw [hdiv, floor_zero]⟩

/-- A zero times an infinity is not a number. -/
theorem zero_mul_infinite (negative : Bool) (hy : y.isInfinite = true) :
    (F64.zero negative).mul y = F64.nan := by
  have hzero : (F64.zero negative).isNan = false ∧ (F64.zero negative).isInfinite = false
      ∧ (F64.zero negative).isZero = true := by
    cases negative <;> exact ⟨rfl, rfl, rfl⟩
  rw [F64.mul, hzero.1, F64.isNan_of_isInfinite hy, hzero.2.1, hy, hzero.2.2]
  rfl

theorem sub_nan (x : F64) : x.sub F64.nan = F64.nan := by
  have hnan : F64.nan.neg.isNan = true := rfl
  rw [F64.sub, F64.add, hnan, Bool.or_true, if_pos rfl]

/-- The formula of the remainder goes through zero times infinity. -/
theorem modulo_infinite (hx : x.isFinite = true) (hy : y.isInfinite = true) :
    modulo (.float x) (.float y) = .ok (.float F64.nan) := by
  obtain ⟨negative, hfloor⟩ := floor_div_infinite hx hy
  show Except.ok (Number.float (x.sub ((x.div y).floor.mul y))) = _
  rw [hfloor, zero_mul_infinite negative hy, sub_nan]

theorem not_floatModulo (hx : x.isFinite = true) (hy : y.isInfinite = true) :
    ¬ FloatModulo x y := by
  rintro ⟨r, hr, heq⟩
  rw [modulo_infinite hx hy] at hr
  cases hr
  have hnan : F64.nan.isNan = true := rfl
  rw [F64.eq, hnan, Bool.true_or, if_pos rfl] at heq
  cases heq

end Floats

/-! ### When the laws hold -/

theorem floorDivide_error (a b : Number) :
    (∃ e, floorDivide a b = .error e) ↔ (∃ i, a = .integer i) ∧ b = .integer 0 := by
  cases a <;> cases b
  case integer.integer a b =>
    by_cases hb : b = 0
    · subst hb
      exact ⟨fun _ => ⟨⟨a, rfl⟩, rfl⟩, fun _ => ⟨_, rfl⟩⟩
    · rw [floorDivide_integer hb]
      simp [hb]
  all_goals simp [floorDivide]

theorem modulo_error (a b : Number) :
    (∃ e, modulo a b = .error e) ↔ (∃ i, a = .integer i) ∧ b = .integer 0 := by
  cases a <;> cases b
  case integer.integer a b =>
    by_cases hb : b = 0
    · subst hb
      exact ⟨fun _ => ⟨⟨a, rfl⟩, rfl⟩, fun _ => ⟨_, rfl⟩⟩
    · rw [modulo_integer hb]
      simp [hb]
  all_goals simp [modulo]

/-- The laws hold for all operands but a finite float and an infinity. -/
theorem divisionLaws_iff (a b : Number) : DivisionLaws a b ↔
    ¬ ∃ x y, a = .float x ∧ b = .float y ∧ x.isFinite = true ∧ y.isInfinite = true := by
  constructor
  · rintro h ⟨x, y, ha, hb, hx, hy⟩
    exact not_floatModulo hx hy (h.float x y ha hb hx hy)
  · intro h
    refine ⟨floorDivide_error a b, modulo_error a b, fun i j _ _ hj => integerDivision hj,
      fun x s _ _ => shiftLaws x s, fun x y ha hb hx hy => ?_⟩
    exact absurd ⟨x, y, ha, hb, hx, hy⟩ h

/-- `1.0 % inf` is not `1.0`. -/
theorem divisionLaws_one_infinity :
    ¬ DivisionLaws (.float ⟨0x3ff0000000000000⟩) (.float ⟨0x7ff0000000000000⟩) := fun h =>
  not_floatModulo rfl rfl (h.float _ _ rfl rfl rfl rfl)

end Number

end RivetLua.Core
