import RivetLua.Core.Comparison

namespace RivetLua.Runtime

open RivetLua.Core

/-!
# Runtime — the numeric for loop

`prepare` runs once and decides the mode of the loop; `next` runs behind every round.  With an
integer start and step the loop counts in integers, whatever the limit is: a float limit is
clipped to an integer first.

* `NumericFor.prepare`, `NumericFor.next` — the two instructions;
* `NumericFor.Loop` — the values a loop shows;
* `NumericFor.loop_exact` — with integer start and step these are the values on the loop's side of
  the limit.  A NaN counts as negative infinity there.
-/

namespace NumericFor

/-- Errors of the two instructions. -/
inductive LoopError where
  | core (e : CoreError)
  | numericForZeroStep
  | invalidNumericForState
  deriving DecidableEq, Repr

/-- `Prepared`. -/
inductive Prepared where
  | skip
  | enter (control limit step visible : Value)
  deriving DecidableEq, Repr

/-- `Advanced`. -/
inductive Advanced where
  | exit
  | enter (control visible : Value)
  deriving DecidableEq, Repr

/-! ### Preparing a loop -/

/-- The function `float`. -/
def float : Number → Except LoopError F64
  | .float x => .ok x
  | .integer i =>
    match (Number.float (.zero false)).add (.integer i) with
    | .float x => .ok x
    | .integer _ => .error .invalidNumericForState

/-- `EXCLUSIVE_MAX`: the float `2 ^ 63`. -/
def exclusiveMax : F64 := ⟨0x43e0000000000000⟩

/-- `i64::MIN as f64`. -/
def inclusiveMin : F64 := ⟨0xc3e0000000000000⟩

/-- `integer_limit`: the greatest, or for a negative step the least, integer on the loop's side of
    the limit; none when no integer is. -/
def integerLimit (limit : Number) (positive : Bool) : Option Int64 :=
  match limit with
  | .integer value => some value
  | .float value =>
    if value.isNan then (if positive then none else some Int64.minValue)
    else
      let rounded := if positive then value.floor else value.ceil
      if exclusiveMax.lt rounded || exclusiveMax.eq rounded then
        (if positive then some Int64.maxValue else none)
      else if rounded.lt inclusiveMin then (if positive then none else some Int64.minValue)
      else some (Int64.ofInt (truncRat rounded.toRat))

/-- `number_from_value` with the error of an instruction. -/
def number (value : Value) : Except LoopError Number :=
  (numberFromValue value).mapError .core

/-- Is the step zero, in either subtype? -/
def isZeroStep : Number → Bool
  | .integer i => i == 0
  | .float x => x.eq (.zero false)

/-- The function `prepare`. -/
def prepare (initial limit step : Value) : Except LoopError Prepared := do
  let initial ← number initial
  let step ← number step
  if isZeroStep step then .error .numericForZeroStep
  else
    let limit ← number limit
    match initial, step with
    | .integer initial, .integer step =>
      let positive := Core.compare (.integer step) (.integer 0) == some Ordering.gt
      match integerLimit limit positive with
      | none => .ok .skip
      | some limit =>
        let ordering := Core.compare (.integer initial) (.integer limit)
        if ordering = (if positive then some Ordering.gt else some Ordering.lt) then .ok .skip
        else .ok (.enter (.integer initial) (.integer limit) (.integer step) (.integer initial))
    | initial, step => do
      let initial ← float initial
      let limit ← float limit
      let step ← float step
      let positive := Core.compare (.float step) (.float (.zero false)) == some Ordering.gt
      let ordering := Core.compare (.float initial) (.float limit)
      if ordering = (if positive then some Ordering.gt else some Ordering.lt) then .ok .skip
      else .ok (.enter (.float initial) (.float limit) (.float step) (.float initial))

/-! ### The next round -/

/-- `i64::checked_add`. -/
def checkedAdd (left right : Int64) : Option Int64 :=
  if left.toInt + right.toInt < -2 ^ 63 ∨ 2 ^ 63 ≤ left.toInt + right.toInt then none
  else some (left + right)

/-- Is the next value on the loop's side of the limit? -/
def inRange (positive : Bool) (ordering : Option Ordering) : Bool :=
  ordering == (if positive then some .lt else some .gt) || ordering == some .eq

/-- The function `next`. -/
def next (control limit step : Value) : Except LoopError Advanced :=
  match control, limit, step with
  | .integer control, .integer limit, .integer step =>
    if step = 0 then .error .invalidNumericForState
    else
      match checkedAdd control step with
      | none => .ok .exit
      | some next =>
        let positive := Core.compare (.integer step) (.integer 0) == some Ordering.gt
        if inRange positive (Core.compare (.integer next) (.integer limit)) then
          .ok (.enter (.integer next) (.integer next))
        else .ok .exit
  | .float control, .float limit, .float step =>
    if step.eq (.zero false) then .error .invalidNumericForState
    else
      match (Number.float control).add (.float step) with
      | .float next =>
        let positive := Core.compare (.float step) (.float (.zero false)) == some Ordering.gt
        if inRange positive (Core.compare (.float next) (.float limit)) then
          .ok (.enter (.float next) (.float next))
        else .ok .exit
      | .integer _ => .error .invalidNumericForState
  | _, _, _ => .error .invalidNumericForState

/-! ### Loops -/

/-- The rounds behind a control value until the loop is left, with the values they show. -/
inductive Rounds (limit step : Value) : Value → List Value → Prop
  | exit {control : Value} (h : next control limit step = .ok .exit) : Rounds limit step control []
  | enter {control control' visible : Value} {rest : List Value}
      (h : next control limit step = .ok (.enter control' visible))
      (hrest : Rounds limit step control' rest) : Rounds limit step control (visible :: rest)

/-- A whole loop, with the values it shows.  A loop that never ends has no derivation. -/
inductive Loop (initial limit step : Value) : List Value → Prop
  | skip (h : prepare initial limit step = .ok .skip) : Loop initial limit step []
  | enter {control limit' step' visible : Value} {rest : List Value}
      (h : prepare initial limit step = .ok (.enter control limit' step' visible))
      (hrest : Rounds limit' step' control rest) : Loop initial limit step (visible :: rest)

/-! ### What a loop has to show -/

/-- A value lies on the loop's side of a limit. -/
def OnSide (positive : Bool) (limit : Extended) (value : Int) : Prop :=
  if positive then Extended.finite value ≤ limit else limit ≤ Extended.finite value

/-- The value of a round, before any wrapping. -/
def roundValue (initial step : Int64) (round : Nat) : Int := initial.toInt + round * step.toInt

/-- An integer is an `i64`. -/
def IsI64 (value : Int) : Prop := -2 ^ 63 ≤ value ∧ value < 2 ^ 63

/-- The loop ends and shows the values of the first rounds, in order: those that are an `i64` on
    the loop's side.  It is skipped when there are none. -/
def YieldsExactly (initial step : Int64) (limit : Value) (side : Int → Prop) : Prop :=
  ∃ rounds : Nat,
    (∀ k, k < rounds ↔ IsI64 (roundValue initial step k) ∧ side (roundValue initial step k))
    ∧ (∀ shown, Loop (.integer initial) limit (.integer step) shown ↔
      shown = (List.range rounds).map fun k => .integer (Int64.ofInt (roundValue initial step k)))
    ∧ (prepare (.integer initial) limit (.integer step) = .ok .skip ↔ rounds = 0)

/-- The value a limit stands for; a NaN counts as negative infinity. -/
def limitValue (limit : Number) : Extended := if limit.isNan then ⊥ else limit.denoted

/-! ### Clipping a limit -/

section Clip

theorem toRat_exclusiveMax : exclusiveMax.toRat = 2 ^ 63 := by
  have hnegative : exclusiveMax.negative = false := rfl
  have hsignificand : exclusiveMax.significand = 2 ^ 52 := rfl
  have hscale : exclusiveMax.scale = 11 := rfl
  rw [F64.toRat, hnegative, hsignificand, hscale]
  norm_num

theorem toRat_inclusiveMin : inclusiveMin.toRat = -2 ^ 63 := by
  have hnegative : inclusiveMin.negative = true := rfl
  have hsignificand : inclusiveMin.significand = 2 ^ 52 := rfl
  have hscale : inclusiveMin.scale = 11 := rfl
  rw [F64.toRat, hnegative, hsignificand, hscale]
  norm_num

theorem denoted_exclusiveMax : exclusiveMax.denoted = .finite (2 ^ 63) := by
  have hfinite : exclusiveMax.isFinite = true := rfl
  rw [F64.denoted, hfinite, if_pos rfl, toRat_exclusiveMax]

theorem denoted_inclusiveMin : inclusiveMin.denoted = .finite (-2 ^ 63) := by
  have hfinite : inclusiveMin.isFinite = true := rfl
  rw [F64.denoted, hfinite, if_pos rfl, toRat_inclusiveMin]

variable {x : F64}

/-- The value of a float that is an integer or an infinity. -/
def IsRound (x : F64) : Prop :=
  x.isNan = false ∧ (x.isFinite = true → ∃ n : Int, x.toRat = n)

theorem isRound_floor (hx : x.isNan = false) : IsRound x.floor := by
  cases hfinite : x.isFinite
  · rw [F64.floor, if_neg (by simp [hfinite])]
    exact ⟨hx, fun h => by rw [hfinite] at h; cases h⟩
  · obtain ⟨h, hvalue⟩ := F64.toRat_floor hfinite
    exact ⟨F64.isNan_of_isFinite h, fun _ => ⟨_, hvalue⟩⟩

theorem isRound_ceil (hx : x.isNan = false) : IsRound x.ceil := by
  cases hfinite : x.isFinite
  · rw [F64.ceil, if_neg (by simp [hfinite])]
    exact ⟨hx, fun h => by rw [hfinite] at h; cases h⟩
  · obtain ⟨h, hvalue⟩ := F64.toRat_ceil hfinite
    exact ⟨F64.isNan_of_isFinite h, fun _ => ⟨_, hvalue⟩⟩

/-- Integers below a number are those below its floor. -/
theorem le_denoted_floor (v : Int) :
    Extended.finite v ≤ x.floor.denoted ↔ Extended.finite v ≤ x.denoted := by
  cases hfinite : x.isFinite
  · rw [F64.floor, if_neg (by simp [hfinite])]
  · obtain ⟨h, hvalue⟩ := F64.toRat_floor hfinite
    rw [F64.denoted, F64.denoted, if_pos h, if_pos hfinite, hvalue, Extended.finite_le_finite,
      Extended.finite_le_finite, Int.cast_le, Int.le_floor]

theorem denoted_ceil_le (v : Int) :
    x.ceil.denoted ≤ Extended.finite v ↔ x.denoted ≤ Extended.finite v := by
  cases hfinite : x.isFinite
  · rw [F64.ceil, if_neg (by simp [hfinite])]
  · obtain ⟨h, hvalue⟩ := F64.toRat_ceil hfinite
    rw [F64.denoted, F64.denoted, if_pos h, if_pos hfinite, hvalue, Extended.finite_le_finite,
      Extended.finite_le_finite, Int.cast_le, Int.ceil_le]

section Rounded

variable {r : F64} (hr : IsRound r)
include hr

theorem exclusiveMax_le_iff :
    (exclusiveMax.lt r || exclusiveMax.eq r) = true ↔ .finite (2 ^ 63) ≤ r.denoted := by
  have hmax : exclusiveMax.isNan = false := rfl
  rw [Bool.or_eq_true, F64.lt_iff_denoted hmax hr.1, F64.eq_iff_denoted hmax hr.1,
    denoted_exclusiveMax, le_iff_lt_or_eq]

theorem lt_inclusiveMin_iff : r.lt inclusiveMin = true ↔ r.denoted < .finite (-2 ^ 63) := by
  have hmin : inclusiveMin.isNan = false := rfl
  rw [F64.lt_iff_denoted hr.1 hmin, denoted_inclusiveMin]

/-- A rounded float in between is an `i64`, and the cast is exact. -/
theorem denoted_of_between (habove : ¬ .finite (2 ^ 63) ≤ r.denoted)
    (hbelow : ¬ r.denoted < .finite (-2 ^ 63)) :
    r.denoted = .finite ((Int64.ofInt (truncRat r.toRat)).toInt : ℚ) := by
  cases hfinite : r.isFinite
  · rw [F64.denoted, if_neg (by simp [hfinite])] at habove hbelow
    cases hsign : r.negative
    · rw [if_neg (by simp [hsign])] at habove
      exact absurd (Extended.finite_lt_infinity _).le habove
    · rw [if_pos hsign] at hbelow
      exact absurd (Extended.bot_lt_finite _) hbelow
  · obtain ⟨n, hn⟩ := hr.2 hfinite
    rw [F64.denoted, if_pos hfinite, hn, Extended.finite_le_finite, not_le] at habove
    rw [F64.denoted, if_pos hfinite, hn, Extended.finite_lt_finite, not_lt] at hbelow
    have habove' : n < 2 ^ 63 := by exact_mod_cast habove
    have hbelow' : -2 ^ 63 ≤ n := by exact_mod_cast hbelow
    have htrunc : truncRat (n : ℚ) = n := by simp [truncRat]
    have hcast : (Int64.ofInt n).toInt = n := Int64.toInt_ofInt_of_le (by omega) (by omega)
    rw [F64.denoted, if_pos hfinite, hn, htrunc, hcast]

end Rounded

/-- An integer on the loop's side of the clipped limit. -/
def OnClippedSide (positive : Bool) (limit : Option Int64) (value : Int) : Prop :=
  ∃ l ∈ limit, if positive then value ≤ l.toInt else l.toInt ≤ value

/-- Clipping keeps the side for every `i64`. -/
theorem integerLimit_float (positive : Bool) (hx : x.isNan = false) {v : Int} (hv : IsI64 v) :
    OnClippedSide positive (integerLimit (.float x) positive) v ↔ OnSide positive x.denoted v := by
  have hround : IsRound (if positive then x.floor else x.ceil) := by
    cases positive
    · exact isRound_ceil hx
    · exact isRound_floor hx
  have hside : OnSide positive (if positive then x.floor else x.ceil).denoted v
      ↔ OnSide positive x.denoted v := by
    cases positive
    · exact denoted_ceil_le v
    · exact le_denoted_floor v
  have hmax := exclusiveMax_le_iff hround
  have hmin := lt_inclusiveMin_iff hround
  have hbetween := denoted_of_between hround
  rw [← hside, integerLimit, hx, if_neg (by simp)]
  generalize (if positive then x.floor else x.ceil) = r at *
  have hv1 : Extended.finite v < Extended.finite (2 ^ 63) :=
    Extended.finite_lt_finite.mpr (by exact_mod_cast hv.2)
  have hv2 : Extended.finite (-2 ^ 63) ≤ Extended.finite v :=
    Extended.finite_le_finite.mpr (by exact_mod_cast hv.1)
  show OnClippedSide positive (if _ then _ else if _ then _ else _) v ↔ _
  by_cases habove : Extended.finite (2 ^ 63) ≤ r.denoted
  · rw [if_pos (hmax.mpr habove)]
    cases positive
    · refine ⟨fun h => ?_, fun h => absurd (habove.trans h) (not_le.mpr hv1)⟩
      obtain ⟨l, hl, -⟩ := h
      cases hl
    · refine ⟨fun _ => (hv1.trans_le habove).le, fun _ => ⟨_, rfl, ?_⟩⟩
      show v ≤ 9223372036854775807
      have := hv.2
      omega
  rw [if_neg fun h => habove (hmax.mp h)]
  by_cases hbelow : r.denoted < Extended.finite (-2 ^ 63)
  · rw [if_pos (hmin.mpr hbelow)]
    cases positive
    · refine ⟨fun _ => (hbelow.trans_le hv2).le, fun _ => ⟨_, rfl, ?_⟩⟩
      show -9223372036854775808 ≤ v
      have := hv.1
      omega
    · refine ⟨fun h => ?_, fun h => absurd (hbelow.trans_le (hv2.trans h)) (lt_irrefl _)⟩
      obtain ⟨l, hl, -⟩ := h
      cases hl
  rw [if_neg fun h => hbelow (hmin.mp h)]
  have hvalue := hbetween habove hbelow
  cases positive
  · show (∃ l ∈ some _, _) ↔ r.denoted ≤ _
    rw [hvalue, Extended.finite_le_finite]
    simp
  · show (∃ l ∈ some _, _) ↔ _ ≤ r.denoted
    rw [hvalue, Extended.finite_le_finite]
    simp

end Clip

/-- Clipping keeps the side for every `i64`, whatever the limit is. -/
theorem integerLimit_side (positive : Bool) (limit : Number) {v : Int} (hv : IsI64 v) :
    OnClippedSide positive (integerLimit limit positive) v
      ↔ OnSide positive (limitValue limit) v := by
  cases limit with
  | integer l =>
    show (∃ l' ∈ some l, _) ↔ OnSide positive (.finite l.toInt) v
    unfold OnSide
    cases positive <;> simp [Extended.finite_le_finite]
  | float x =>
    cases hnan : x.isNan
    · rw [limitValue, show (Number.float x).isNan = false from hnan, if_neg (by simp)]
      exact integerLimit_float positive hnan hv
    · rw [limitValue, show (Number.float x).isNan = true from hnan, if_pos rfl, integerLimit, hnan,
        if_pos rfl]
      cases positive
      · refine ⟨fun _ => bot_le, fun _ => ⟨_, rfl, ?_⟩⟩
        show -9223372036854775808 ≤ v
        have := hv.1
        omega
      · constructor
        · rintro ⟨l, hl, -⟩
          cases hl
        · intro h
          exact absurd h (not_le.mpr (Extended.bot_lt_finite _))

/-! ### The rounds of an integer loop -/

section Rounds

variable {initial step : Int64}

/-- A round takes place: its value is an `i64` on the loop's side of the clipped limit. -/
def TakesPlace (initial step : Int64) (limit : Option Int64) (k : Nat) : Prop :=
  IsI64 (roundValue initial step k)
    ∧ OnClippedSide (decide (0 < step.toInt)) limit (roundValue initial step k)

theorem isI64_toInt (i : Int64) : IsI64 i.toInt := by
  have hlo : -9223372036854775808 ≤ i.toInt := Int64.minValue_le_toInt i
  have hhi : i.toInt ≤ 9223372036854775807 := Int64.toInt_le i
  constructor <;> omega

theorem toInt_ofInt {v : Int} (hv : IsI64 v) : (Int64.ofInt v).toInt = v := by
  have h1 := hv.1
  have h2 := hv.2
  exact Int64.toInt_ofInt_of_le (by omega) (by omega)

@[simp] theorem roundValue_zero (initial step : Int64) : roundValue initial step 0 = initial.toInt := by
  simp [roundValue]

theorem roundValue_succ (initial step : Int64) (k : Nat) :
    roundValue initial step (k + 1) = roundValue initial step k + step.toInt := by
  unfold roundValue
  push_cast
  ring

/-- Values move away from the start, in the direction of the step. -/
theorem roundValue_direction (initial step : Int64) (k : Nat) :
    (0 ≤ step.toInt → initial.toInt ≤ roundValue initial step k)
      ∧ (step.toInt ≤ 0 → roundValue initial step k ≤ initial.toInt) := by
  unfold roundValue
  refine ⟨fun h => ?_, fun h => ?_⟩
  · have := mul_nonneg (Int.natCast_nonneg k) h
    omega
  · have := mul_nonpos_of_nonneg_of_nonpos (Int.natCast_nonneg k) h
    omega

/-- A round takes place only behind all earlier ones. -/
theorem TakesPlace.of_succ {limit : Option Int64} {k : Nat}
    (h : TakesPlace initial step limit (k + 1)) : TakesPlace initial step limit k := by
  obtain ⟨⟨hlo, hhi⟩, l, hl, hside⟩ := h
  obtain ⟨hup, hdown⟩ := roundValue_direction initial step k
  obtain ⟨hmin, hmax⟩ := isI64_toInt initial
  rw [roundValue_succ] at hlo hhi hside
  by_cases hpos : 0 < step.toInt
  · have := hup hpos.le
    rw [decide_eq_true hpos, if_pos rfl] at hside
    refine ⟨⟨by omega, by omega⟩, l, hl, ?_⟩
    rw [decide_eq_true hpos, if_pos rfl]
    omega
  · have := hdown (not_lt.mp hpos)
    rw [decide_eq_false hpos, if_neg (by simp)] at hside
    refine ⟨⟨by omega, by omega⟩, l, hl, ?_⟩
    rw [decide_eq_false hpos, if_neg (by simp)]
    omega

/-- The values leave the `i64` range in the end. -/
theorem not_takesPlace (hstep : step ≠ 0) (limit : Option Int64) :
    ¬ TakesPlace initial step limit (2 ^ 64) := by
  rintro ⟨⟨hlo, hhi⟩, -⟩
  have hne : step.toInt ≠ 0 := fun h => hstep (Int64.toInt_inj.mp h)
  obtain ⟨hmin, hmax⟩ := isI64_toInt initial
  unfold roundValue at hlo hhi
  push_cast at hlo hhi
  omega

/-- The rounds that take place are the first ones. -/
theorem exists_rounds (hstep : step ≠ 0) (limit : Option Int64) :
    ∃ n, ∀ k, k < n ↔ TakesPlace initial step limit k := by
  classical
  have hend : ∃ k, ¬ TakesPlace initial step limit k := ⟨_, not_takesPlace hstep limit⟩
  refine ⟨Nat.find hend, fun k => ⟨fun h => not_not.mp (Nat.find_min hend h), fun h => ?_⟩⟩
  by_contra hle
  have hdown : ∀ d, TakesPlace initial step limit (Nat.find hend + d) →
      TakesPlace initial step limit (Nat.find hend) := by
    intro d
    induction d with
    | zero => exact id
    | succ d ih => exact fun h => ih h.of_succ
  obtain ⟨d, rfl⟩ := Nat.exists_eq_add_of_le (not_lt.mp hle)
  exact Nat.find_spec hend (hdown d h)

/-- The direction test of both instructions. -/
theorem positive_eq (step : Int64) :
    (Core.compare (.integer step) (.integer 0) == some Ordering.gt) = decide (0 < step.toInt) := by
  show (some (Ord.compare step.toInt 0) == some Ordering.gt) = _
  rw [Bool.eq_iff_iff, beq_iff_eq, Option.some.injEq, decide_eq_true_eq, Int.compare_eq_gt]

theorem inRange_integer (positive : Bool) (v l : Int64) :
    inRange positive (Core.compare (.integer v) (.integer l)) = true
      ↔ if positive then v.toInt ≤ l.toInt else l.toInt ≤ v.toInt := by
  show inRange positive (some (Ord.compare v.toInt l.toInt)) = true ↔ _
  cases hcompare : Ord.compare v.toInt l.toInt with
  | lt =>
    have := Int.compare_eq_lt.mp hcompare
    cases positive <;> simp [inRange] <;> omega
  | eq =>
    have := Int.compare_eq_eq.mp hcompare
    cases positive <;> simp [inRange] <;> omega
  | gt =>
    have := Int.compare_eq_gt.mp hcompare
    cases positive <;> simp [inRange] <;> omega

theorem checkedAdd_of_isI64 {a b : Int64} (h : IsI64 (a.toInt + b.toInt)) :
    checkedAdd a b = some (a + b) := by
  obtain ⟨hlo, hhi⟩ := h
  rw [checkedAdd, if_neg (by omega)]

theorem checkedAdd_of_not {a b : Int64} (h : ¬ IsI64 (a.toInt + b.toInt)) :
    checkedAdd a b = none := by
  have hout : a.toInt + b.toInt < -2 ^ 63 ∨ 2 ^ 63 ≤ a.toInt + b.toInt := by
    unfold IsI64 at h
    omega
  rw [checkedAdd, if_pos hout]

/-- Behind a round comes the next one, or the exit when that does not take place. -/
theorem next_integer (hstep : step ≠ 0) {l : Int64} {k : Nat}
    (h : TakesPlace initial step (some l) k) :
    (TakesPlace initial step (some l) (k + 1) →
      next (.integer (Int64.ofInt (roundValue initial step k))) (.integer l) (.integer step)
        = .ok (.enter (.integer (Int64.ofInt (roundValue initial step (k + 1))))
          (.integer (Int64.ofInt (roundValue initial step (k + 1))))))
    ∧ (¬ TakesPlace initial step (some l) (k + 1) →
      next (.integer (Int64.ofInt (roundValue initial step k))) (.integer l) (.integer step)
        = .ok .exit) := by
  have hsum : Int64.ofInt (roundValue initial step k) + step
      = Int64.ofInt (roundValue initial step (k + 1)) := by
    rw [roundValue_succ, Int64.ofInt_add, Int64.ofInt_toInt]
  have hvalue : (Int64.ofInt (roundValue initial step k)).toInt + step.toInt
      = roundValue initial step (k + 1) := by
    rw [toInt_ofInt h.1, roundValue_succ]
  by_cases hi64 : IsI64 (roundValue initial step (k + 1))
  · have hchecked := checkedAdd_of_isI64 (hvalue ▸ hi64)
    have hside := inRange_integer (decide (0 < step.toInt))
      (Int64.ofInt (roundValue initial step (k + 1))) l
    rw [toInt_ofInt hi64] at hside
    have hiff : TakesPlace initial step (some l) (k + 1) ↔
        inRange (decide (0 < step.toInt)) (Core.compare
          (.integer (Int64.ofInt (roundValue initial step (k + 1)))) (.integer l)) = true := by
      rw [hside]
      exact ⟨fun ⟨_, l', hl, h⟩ => by cases hl; exact h, fun h => ⟨hi64, l, rfl, h⟩⟩
    rw [hiff, next, if_neg hstep, hchecked, hsum]
    show (_ → (if inRange _ _ = true then _ else _) = _) ∧ (_ → (if inRange _ _ = true then _ else _) = _)
    rw [positive_eq]
    exact ⟨fun hnext => by rw [if_pos hnext], fun hnext => by rw [if_neg hnext]⟩
  · have hchecked := checkedAdd_of_not (fun hc => hi64 (hvalue ▸ hc))
    refine ⟨fun hnext => absurd hnext.1 hi64, fun _ => ?_⟩
    rw [next, if_neg hstep, hchecked]

/-- What the loop shows behind a round that took place: the values of the rounds left. -/
theorem rounds_iff (hstep : step ≠ 0) {l : Int64} {n : Nat}
    (hn : ∀ k, k < n ↔ TakesPlace initial step (some l) k) {left k : Nat} (hk : k + 1 + left = n)
    {shown : List Value} :
    Rounds (.integer l) (.integer step) (.integer (Int64.ofInt (roundValue initial step k))) shown
      ↔ shown = (List.range' (k + 1) left).map
          fun k => .integer (Int64.ofInt (roundValue initial step k)) := by
  obtain ⟨henter, hexit⟩ := next_integer hstep ((hn k).mp (by omega))
  induction left generalizing k shown with
  | zero =>
    have hlast := hexit (fun h => absurd ((hn (k + 1)).mpr h) (by omega))
    constructor
    · rintro (⟨h⟩ | ⟨h, _⟩)
      · rfl
      · rw [hlast] at h
        cases h
    · rintro rfl
      exact .exit hlast
  | succ left ih =>
    have hnext := henter ((hn (k + 1)).mp (by omega))
    obtain ⟨henter', hexit'⟩ := next_integer hstep ((hn (k + 1)).mp (by omega))
    have hrest := fun shown => @ih (k + 1) (by omega) shown henter' hexit'
    rw [List.range'_succ, List.map_cons]
    constructor
    · rintro (⟨h⟩ | ⟨h, hrounds⟩)
      · rw [hnext] at h
        cases h
      · rw [hnext] at h
        cases h
        rw [(hrest _).mp hrounds]
    · rintro rfl
      exact .enter hnext ((hrest _).mpr rfl)

/-- Preparing an integer loop: the first round has to take place. -/
theorem prepare_integer (hstep : step ≠ 0) (limit : Number) :
    (∀ l, integerLimit limit (decide (0 < step.toInt)) = some l →
      TakesPlace initial step (some l) 0 →
      prepare (.integer initial) limit.toValue (.integer step)
        = .ok (.enter (.integer initial) (.integer l) (.integer step) (.integer initial)))
    ∧ (¬ TakesPlace initial step (integerLimit limit (decide (0 < step.toInt))) 0 →
      prepare (.integer initial) limit.toValue (.integer step) = .ok .skip) := by
  have hzero : isZeroStep (.integer step) = false := by
    rw [isZeroStep, beq_eq_false_iff_ne]
    exact hstep
  have hnumber : number limit.toValue = .ok limit := by cases limit <;> rfl
  have hprepare : prepare (.integer initial) limit.toValue (.integer step)
      = match integerLimit limit (decide (0 < step.toInt)) with
        | none => .ok .skip
        | some l =>
          if Core.compare (.integer initial) (.integer l)
              = (if decide (0 < step.toInt) then some Ordering.gt else some Ordering.lt) then
            .ok .skip
          else
            .ok (.enter (.integer initial) (.integer l) (.integer step) (.integer initial)) := by
    show (if isZeroStep (.integer step) = true then _ else number limit.toValue >>= _) = _
    rw [hzero, if_neg (by simp), hnumber, ← positive_eq]
    rfl
  have hside : ∀ l, TakesPlace initial step (some l) 0 ↔ ¬ Core.compare (.integer initial)
      (.integer l) = (if decide (0 < step.toInt) then some Ordering.gt else some Ordering.lt) := by
    intro l
    have hiff : TakesPlace initial step (some l) 0 ↔
        if decide (0 < step.toInt) then initial.toInt ≤ l.toInt else l.toInt ≤ initial.toInt := by
      unfold TakesPlace
      rw [roundValue_zero]
      exact ⟨fun ⟨_, l', hl, h⟩ => by cases hl; exact h, fun h => ⟨isI64_toInt _, l, rfl, h⟩⟩
    rw [hiff]
    show _ ↔ ¬ some (Ord.compare initial.toInt l.toInt) = _
    cases decide (0 < step.toInt)
    · simp [Int.compare_eq_lt]
    · simp [Int.compare_eq_gt]
  rw [hprepare]
  refine ⟨fun l hl h => ?_, fun h => ?_⟩
  · rw [hl]
    exact if_neg ((hside l).mp h)
  · cases hl : integerLimit limit (decide (0 < step.toInt)) with
    | none => rfl
    | some l =>
      rw [hl, hside, not_not] at h
      exact if_pos h

end Rounds

/-! ### Integer loops are exact -/

/-- A loop with integer start and step shows exactly the values on its side of the limit. -/
theorem loop_exact {initial step : Int64} (hstep : step ≠ 0) (limit : Number) :
    YieldsExactly initial step limit.toValue
      (OnSide (decide (0 < step.toInt)) (limitValue limit)) := by
  obtain ⟨henter, hskip⟩ := @prepare_integer initial step hstep limit
  obtain ⟨n, hn⟩ := @exists_rounds initial step hstep
    (integerLimit limit (decide (0 < step.toInt)))
  refine ⟨n, fun k => ?_, ?_⟩
  · rw [hn, TakesPlace, and_congr_right_iff]
    exact fun hv => integerLimit_side _ limit hv
  rcases Nat.eq_zero_or_pos n with rfl | hpos
  · -- no round takes place
    have hprepare := hskip fun h => absurd ((hn 0).mpr h) (lt_irrefl _)
    refine ⟨fun shown => ⟨?_, ?_⟩, fun _ => rfl, fun _ => hprepare⟩
    · rintro (⟨h⟩ | ⟨h, _⟩)
      · rfl
      · rw [hprepare] at h
        cases h
    · rintro rfl
      exact .skip hprepare
  · have hfirst := (hn 0).mp hpos
    have hclipped := hfirst.2
    obtain ⟨l, hl, -⟩ := hclipped
    rw [Option.mem_def] at hl
    rw [hl] at hn hfirst
    have hprepare := henter l hl hfirst
    obtain ⟨left, rfl⟩ := Nat.exists_eq_add_of_le hpos
    have hrounds := fun shown => @rounds_iff initial step hstep l _ hn left 0 (by omega) shown
    rw [roundValue_zero, Int64.ofInt_toInt] at hrounds
    have hvalues : ((List.range (Nat.succ 0 + left)).map fun k =>
        Value.integer (Int64.ofInt (roundValue initial step k)))
          = .integer initial :: (List.range' (0 + 1) left).map
            fun k => .integer (Int64.ofInt (roundValue initial step k)) := by
      rw [List.range_eq_range', Nat.add_comm, List.range'_succ, List.map_cons, roundValue_zero,
        Int64.ofInt_toInt]
    rw [hvalues]
    refine ⟨fun shown => ⟨?_, ?_⟩, fun h => ?_, fun h => ?_⟩
    · rintro (⟨h⟩ | ⟨h, hrest⟩)
      · rw [hprepare] at h
        cases h
      · rw [hprepare] at h
        cases h
        rw [(hrounds _).mp hrest]
    · rintro rfl
      exact .enter hprepare ((hrounds _).mpr rfl)
    · rw [hprepare] at h
      cases h
    · omega

/-- `for i = 9223372036854775806, math.huge`: two rounds, and no wrap. -/
theorem loop_exact_huge : (1 : Int64) ≠ 0 ∧ YieldsExactly 9223372036854775806 1
    (.float ⟨0x7ff0000000000000⟩)
    (OnSide (decide (0 < (1 : Int64).toInt)) (limitValue (.float ⟨0x7ff0000000000000⟩))) :=
  ⟨by decide, @loop_exact 9223372036854775806 1 (by decide) (.float ⟨0x7ff0000000000000⟩)⟩

/-- No value is on a side of a NaN, but `for i = 3, 0/0, -1` runs. -/
theorem loop_nan_runs : ¬ YieldsExactly 3 (-1) (Number.float F64.nan).toValue fun v =>
    (Number.float F64.nan).isNan = false
      ∧ OnSide (decide (0 < (-1 : Int64).toInt)) (Number.float F64.nan).denoted v := by
  rintro ⟨n, hn, -, hskip⟩
  have hnan : (Number.float F64.nan).isNan = true := rfl
  have hzero : n = 0 := by
    by_contra hne
    have hside := ((hn 0).mp (Nat.pos_of_ne_zero hne)).2.1
    rw [hnan] at hside
    cases hside
  have hprepare := hskip.mpr hzero
  cases hprepare

end NumericFor

end RivetLua.Runtime
