import RivetLua.Stdlib.Pack

namespace RivetLua.Stdlib.Pack

open RivetLua.Core
open Check (reject bind_eq_ok then_eq_ok reject_eq_ok ok_bind error_bind reject_bind_of
  reject_bind_of_not)
open Utf8 (maxSize)

/-!
# Stdlib — what is packed is unpacked

The five loops over a format ask the parser for the same options at the same positions.  What one
option writes and what the other loops make of it is stated once (`FieldTrip`), extended by the
padding and the checks of a round (`StepTrip`) and then to a whole format (`RunTrip`).

* `readInteger_written` — integers of every width;
* `Parser.each_enough` — the rounds of a loop are enough for its format;
* `pack_roundTrip` — sizes, values and the position behind them.
-/

/-! ### Integers -/

/-- The bytes of a written integer, in the order of an option. -/
def integerBytes (number size : Nat) (little negative : Bool) : List UInt8 :=
  if little then (List.range size).map (part number negative)
  else ((List.range size).map (part number negative)).reverse

@[simp] theorem length_integerBytes (number size : Nat) (little negative : Bool) :
    (integerBytes number size little negative).length = size := by
  cases little <;> simp [integerBytes]

theorem insertIdx_length (output tail : List UInt8) (byte : UInt8) :
    (output ++ tail).insertIdx output.length byte = output ++ byte :: tail := by
  induction output with
  | nil => rfl
  | cons first output ih => simp [ih]

/-- Written bytes go behind the output, the highest first when the order is not little-endian. -/
theorem writeInteger_eq (output : List UInt8) (number size : Nat) (little negative : Bool) :
    writeInteger output number size little negative
      = output ++ integerBytes number size little negative := by
  unfold writeInteger
  induction size with
  | zero => cases little <;> simp [integerBytes]
  | succ size ih =>
    rw [List.range_succ, List.foldl_append, ih]
    cases little with
    | true => simp [integerBytes, List.range_succ]
    | false =>
      have hlen : (output ++ integerBytes number size false negative).length - size
          = output.length := by simp
      simp only [List.foldl_cons, List.foldl_nil, Bool.false_eq_true, if_false, hlen,
        insertIdx_length]
      simp [integerBytes, List.range_succ]

theorem byteOf_integerBytes {number size index : Nat} {little negative : Bool}
    (h : index < size) :
    byteOf (integerBytes number size little negative) little index
      = part number negative index := by
  cases little with
  | true => simp [byteOf, integerBytes, h]
  | false =>
    have hlt : size - 1 - index < size := by omega
    have hback : size - 1 - (size - 1 - index) = index := by omega
    simp [byteOf, integerBytes, hlt, hback]

/-- The loop of `readInteger` over the low bytes of a number. -/
theorem foldl_part (number : Nat) (negative : Bool) {count : Nat} (h : count ≤ 8) (result : Nat) :
    (List.range count).reverse.foldl
        (fun result index => (result <<< 8) ||| (part number negative index).toNat) result
      = result * 256 ^ count + number % 256 ^ count := by
  induction count generalizing result with
  | zero => simp [Nat.mod_one]
  | succ count ih =>
    have hpart : (part number negative count).toNat = number / 256 ^ count % 256 := by
      rw [part, if_neg (by omega), UInt8.toNat_ofNat', Nat.shiftRight_eq_div_pow, Nat.mul_comm,
        Nat.pow_mul]
    have hlt : number / 256 ^ count % 256 < 2 ^ 8 := Nat.mod_lt _ (by decide)
    have hstep : (result <<< 8) ||| (number / 256 ^ count % 256)
        = result * 256 + number / 256 ^ count % 256 := by
      rw [← Nat.shiftLeft_add_eq_or_of_lt hlt, Nat.shiftLeft_eq]
    rw [List.range_succ, List.reverse_append, List.reverse_singleton, List.singleton_append,
      List.foldl_cons, hpart, hstep, ih (by omega), Nat.mod_pow_succ, Nat.pow_succ]
    ring

theorem lowBytes_integerBytes (number size : Nat) (little negative : Bool) :
    lowBytes (integerBytes number size little negative) little
      = number % 256 ^ min size 8 := by
  have hbyte : ∀ result, ∀ index ∈ (List.range (min size 8)).reverse,
      (result <<< 8) ||| (byteOf (integerBytes number size little negative) little index).toNat
        = (result <<< 8) ||| (part number negative index).toNat := by
    intro result index hindex
    rw [byteOf_integerBytes]
    simp at hindex
    omega
  rw [lowBytes, length_integerBytes, List.foldl_ext _ _ _ hbyte,
    foldl_part number negative (by omega), Nat.zero_mul, Nat.zero_add]

/-- What is read is what was written, when the low bytes hold the value and the sign extends it. -/
theorem readInteger_integerBytes {number size : Nat} {little signed negative : Bool}
    {value : BitVec 64}
    (hvalue : extendSign size signed (BitVec.ofNat 64 (number % 256 ^ min size 8)) = value)
    (hsign : 8 < size → (negative = true ↔ signed = true ∧ value.toInt < 0)) :
    readInteger (integerBytes number size little negative) little signed
      = .ok (Int64.ofBitVec value) := by
  have hextended : ¬ (((List.range size).drop 8).any fun index =>
      byteOf (integerBytes number size little negative) little index != extension signed value)
        = true := by
    rw [Bool.not_eq_true, List.any_eq_false]
    intro index hindex
    obtain ⟨i, hi, rfl⟩ := List.getElem_of_mem hindex
    simp only [List.length_drop, List.length_range] at hi
    have hpart : part number negative (8 + i) = extension signed value := by
      rw [part, if_pos (by omega), extension]
      cases negative with
      | true => rw [if_pos rfl, if_pos ((hsign (by omega)).mp rfl)]
      | false =>
        rw [if_neg (by decide), if_neg]
        exact fun h => absurd ((hsign (by omega)).mpr h) (by decide)
    rw [List.getElem_drop, List.getElem_range, byteOf_integerBytes (by omega), hpart]
    simp
  simp only [readInteger, length_integerBytes, lowBytes_integerBytes, hvalue]
  rw [then_eq_ok]
  exact ⟨reject_eq_ok.mpr hextended, rfl⟩

/-- Sign extension restores a value of fewer bytes. -/
theorem extendSign_of_bounds {size : Nat} {value : BitVec 64} (hpos : 0 < size) (hsize : size < 8)
    (hlow : -2 ^ (size * 8 - 1) ≤ value.toInt) (hhigh : value.toInt < 2 ^ (size * 8 - 1)) :
    extendSign size true (BitVec.ofNat 64 (value.toNat % 256 ^ size)) = value := by
  obtain ⟨shift, hshift⟩ : ∃ shift, 64 - size * 8 = shift := ⟨_, rfl⟩
  have hwidth : (2 : Nat) ^ (size * 8) * 2 ^ shift = 2 ^ 64 := by
    rw [← Nat.pow_add]
    congr 1
    omega
  have hhalf : (2 : Int) ^ (size * 8 - 1) * 2 ^ shift = 2 ^ 63 := by
    rw [← pow_add]
    congr 1
    omega
  have hnat : ((BitVec.ofNat 64 (value.toNat % 256 ^ size)) <<< shift).toInt
      = value.toInt * 2 ^ shift := by
    have hlt : value.toNat % 256 ^ size < 2 ^ 64 :=
      lt_of_le_of_lt (Nat.mod_le _ _) value.isLt
    have hpow : (256 : Nat) ^ size = 2 ^ (size * 8) := by
      rw [Nat.mul_comm, Nat.pow_mul]
    have hbound : -2 ^ 63 ≤ value.toInt * 2 ^ shift ∧ value.toInt * 2 ^ shift < 2 ^ 63 := by
      have hpositive : (0 : Int) < 2 ^ shift := by positivity
      have hfloor := Int.mul_le_mul_of_nonneg_right hlow hpositive.le
      have hceil := Int.mul_lt_mul_of_pos_right hhigh hpositive
      rw [Int.neg_mul, hhalf] at hfloor
      rw [hhalf] at hceil
      exact ⟨hfloor, hceil⟩
    calc ((BitVec.ofNat 64 (value.toNat % 256 ^ size)) <<< shift).toInt
        = ((value.toNat % 2 ^ (size * 8) * 2 ^ shift : Nat) : Int).bmod (2 ^ 64) := by
          rw [BitVec.toInt_shiftLeft, BitVec.toNat_ofNat, Nat.mod_eq_of_lt hlt, hpow,
            Nat.shiftLeft_eq]
      _ = ((value.toNat * 2 ^ shift % 2 ^ 64 : Nat) : Int).bmod (2 ^ 64) := by
          rw [← Nat.mul_mod_mul_right, hwidth]
      _ = ((value.toNat : Int) * 2 ^ shift).bmod (2 ^ 64) := by
          rw [Int.natCast_emod, Int.emod_bmod, Int.natCast_mul, Int.natCast_pow]
          rfl
      _ = (value.toInt * 2 ^ shift).bmod (2 ^ 64) := by
          rw [BitVec.toInt_eq_toNat_bmod, Int.bmod_mul_bmod]
      _ = value.toInt * 2 ^ shift := Int.bmod_eq_of_le (by omega) (by omega)
  rw [extendSign, if_pos ⟨hsize, rfl⟩, hshift]
  refine BitVec.eq_of_toInt_eq ?_
  rw [BitVec.toInt_sshiftRight, hnat, Int.shiftRight_eq_div_pow]
  push_cast
  exact Int.mul_ediv_cancel _ (by positivity)

/-- **Integers.**  An integer that passes the check of its width is read back. -/
theorem readInteger_written {n : Int64} {size : Nat} {little signed : Bool} (hpos : 0 < size)
    (hvalid : validateInteger n size signed = .ok ()) :
    readInteger (integerBytes n.toBitVec.toNat size little (signed && decide (n.toInt < 0)))
      little signed = .ok n := by
  have hn : n.toBitVec.toInt = n.toInt := rfl
  refine @readInteger_integerBytes _ _ _ _ _ n.toBitVec ?_ ?_
  · by_cases hsize : size < 8
    · rw [validateInteger, if_pos hsize] at hvalid
      rw [Nat.min_eq_left (by omega)]
      cases signed with
      | true =>
        rw [if_pos rfl, reject_eq_ok] at hvalid
        rw [not_or, not_lt, ge_iff_le, not_le] at hvalid
        exact extendSign_of_bounds hpos hsize hvalid.1 hvalid.2
      | false =>
        rw [if_neg (by decide), reject_eq_ok] at hvalid
        rw [not_or, not_lt, ge_iff_le, not_le] at hvalid
        have hnat : (n.toBitVec.toNat : Int) = n.toInt := by
          have hcond := BitVec.toInt_eq_toNat_cond n.toBitVec
          have hword := n.toBitVec.isLt
          rw [hn] at hcond
          split at hcond <;> omega
        have hlt : n.toBitVec.toNat < 256 ^ size := by
          have hpow : (256 : Nat) ^ size = 2 ^ (size * 8) := by
            rw [Nat.mul_comm, Nat.pow_mul]
          rw [hpow]
          have hcast : (n.toBitVec.toNat : Int) < ((2 ^ (size * 8) : Nat) : Int) := by
            rw [hnat]
            push_cast
            exact hvalid.2
          exact_mod_cast hcast
        rw [extendSign, if_neg (by simp), Nat.mod_eq_of_lt hlt, BitVec.ofNat_toNat,
          BitVec.setWidth_eq]
    · have hwide : (256 : Nat) ^ 8 = 2 ^ 64 := by decide
      rw [extendSign, if_neg (by omega), Nat.min_eq_right (by omega), hwide,
        Nat.mod_eq_of_lt n.toBitVec.isLt, BitVec.ofNat_toNat, BitVec.setWidth_eq]
  · intro _
    rw [hn, Bool.and_eq_true, decide_eq_true_eq]

/-- **Lengths.**  The length before a string is read back. -/
theorem readLength_written {length size : Nat} {little : Bool}
    (hlt : length < 2 ^ 64) (hvalid : ¬ (size < 8 ∧ length ≥ 2 ^ (size * 8))) :
    readInteger (integerBytes length size little false) little false
      = .ok (Int64.ofBitVec (BitVec.ofNat 64 length)) := by
  refine readInteger_integerBytes ?_ (by simp)
  have hfits : length < 256 ^ min size 8 := by
    by_cases hsize : size < 8
    · rw [Nat.min_eq_left (by omega), show (256 : Nat) = 2 ^ 8 from rfl, ← Nat.pow_mul,
        Nat.mul_comm]
      omega
    · rw [Nat.min_eq_right (by omega)]
      exact hlt
  rw [extendSign, if_neg (by simp), Nat.mod_eq_of_lt hfits]

/-! ### The options a parser returns -/

/-- The sizes the parser gives to the kinds of options. -/
def Kind.Sized (size : Nat) : Kind → Prop
  | .int _ | .string => 0 < size
  | .float => size = 4 ∨ size = 8
  | .char => True
  | .pad => size = 1
  | .zero | .align | .noop => size = 0

namespace Parser

variable {target : Target} {p p' : Parser}

theorem limited_pos {size default : Nat} (h : p.limited default = .ok (size, p')) : 0 < size := by
  obtain ⟨⟨number, q⟩, -, h⟩ := bind_eq_ok.mp h
  obtain ⟨hrange, h⟩ := then_eq_ok.mp h
  rw [reject_eq_ok, not_not] at hrange
  cases h
  exact hrange.1

theorem optionOf_sized {code : UInt8} {kind : Kind} {size : Nat}
    (h : optionOf target p code = .ok ((kind, size), p')) : kind.Sized size := by
  unfold optionOf at h
  split at h
  -- the options whose size is read from the format
  case h_10 | h_11 | h_16 =>
    obtain ⟨⟨number, q⟩, hlimited, h⟩ := bind_eq_ok.mp h
    cases h
    exact limited_pos hlimited
  case h_15 | h_24 =>
    obtain ⟨⟨number, q⟩, -, h⟩ := bind_eq_ok.mp h
    cases h
    simp [Kind.Sized]
  case h_25 => cases h
  all_goals
    cases h
    simp [Kind.Sized, target.longBytes_pos]

theorem option_sized {kind : Kind} {size : Nat}
    (h : p.option target = .ok (some ((kind, size), p'))) : kind.Sized size := by
  unfold option at h
  split at h
  · cases h
  · split at h
    · cases h
    · obtain ⟨⟨⟨kind', size'⟩, q⟩, hoption, h⟩ := bind_eq_ok.mp h
      obtain ⟨-, h⟩ := then_eq_ok.mp h
      cases h
      exact optionOf_sized hoption

/-- The next option depends on the position only in its padding. -/
theorem next_cases (p : Parser) :
    (∃ e, ∀ total, p.next target total = .error e)
      ∨ (∀ total, p.next target total = .ok none)
      ∨ ∃ kind size little p', kind.Sized size ∧ ∃ pad : Nat → Nat,
          ∀ total, p.next target total = .ok (some (⟨kind, size, pad total, little⟩, p')) := by
  cases hoption : p.option target with
  | error e => exact .inl ⟨e, fun total => by simp [next, hoption]⟩
  | ok option =>
    obtain _ | ⟨⟨kind, size⟩, q⟩ := option
    · exact .inr (.inl fun total => by simp [next, hoption])
    · cases halign : alignment target q kind size with
      | error e => exact .inl ⟨e, fun total => by simp [next, hoption, halign]⟩
      | ok aligned =>
        obtain ⟨align, p'⟩ := aligned
        by_cases hpower : min align p'.maxalign > 1 ∧ isPowerOfTwo (min align p'.maxalign) = false
        · refine .inl ⟨.argument, fun total => ?_⟩
          simp only [next, hoption, halign, ok_bind]
          rw [reject, if_pos hpower, error_bind]
        · refine .inr (.inr ⟨kind, size, p'.little, p', option_sized hoption,
            padding (min align p'.maxalign), fun total => ?_⟩)
          simp only [next, hoption, halign, ok_bind]
          rw [reject, if_neg hpower, ok_bind]

theorem digits_rest {bytes rest : List UInt8} {start number : Nat}
    (h : digits bytes start = .ok (number, rest)) : rest.length ≤ bytes.length := by
  induction bytes generalizing start with
  | nil =>
    cases h
    exact le_refl _
  | cons digit bytes ih =>
    rw [digits] at h
    split at h
    · split at h
      · exact (ih h).trans (by simp)
      · cases h
    · cases h
      exact le_refl _

theorem number_rest {default size : Nat} (h : p.number default = .ok (size, p')) :
    p'.rest.length ≤ p.rest.length := by
  rw [number] at h
  split at h
  · obtain ⟨⟨number, rest⟩, hdigits, h⟩ := bind_eq_ok.mp h
    cases h
    exact digits_rest hdigits
  · cases h
    exact le_refl _

theorem limited_rest {default size : Nat} (h : p.limited default = .ok (size, p')) :
    p'.rest.length ≤ p.rest.length := by
  obtain ⟨⟨number, q⟩, hnumber, h⟩ := bind_eq_ok.mp h
  obtain ⟨-, h⟩ := then_eq_ok.mp h
  cases h
  exact number_rest hnumber

theorem optionOf_rest {code : UInt8} {option : Kind × Nat}
    (h : optionOf target p code = .ok (option, p')) : p'.rest.length ≤ p.rest.length := by
  unfold optionOf at h
  split at h
  case h_10 | h_11 | h_16 | h_24 =>
    obtain ⟨⟨size, q⟩, hlimited, h⟩ := bind_eq_ok.mp h
    have hrest := limited_rest hlimited
    cases h
    exact hrest
  case h_15 =>
    obtain ⟨⟨size, q⟩, hnumber, h⟩ := bind_eq_ok.mp h
    cases h
    exact number_rest hnumber
  case h_25 => cases h
  all_goals
    cases h
    exact le_refl _

theorem option_rest {option : Kind × Nat} (h : p.option target = .ok (some (option, p'))) :
    p'.rest.length < p.rest.length := by
  unfold Parser.option at h
  split at h
  · cases h
  · rename_i code rest hrest
    split at h
    · cases h
    · obtain ⟨⟨⟨kind', size'⟩, q⟩, hoption, h⟩ := bind_eq_ok.mp h
      obtain ⟨-, h⟩ := then_eq_ok.mp h
      cases h
      rw [hrest, List.length_cons]
      exact Nat.lt_succ_of_le (optionOf_rest hoption)

theorem alignment_rest {kind : Kind} {size align : Nat}
    (h : alignment target p kind size = .ok (align, p')) : p'.rest.length ≤ p.rest.length := by
  unfold alignment at h
  split at h
  · obtain ⟨option, hoption, h⟩ := bind_eq_ok.mp h
    obtain _ | ⟨⟨next, size⟩, q⟩ := option
    · cases h
    · obtain ⟨-, h⟩ := then_eq_ok.mp h
      cases h
      exact (option_rest hoption).le
  · cases h
    exact le_refl _
  · cases h
    exact le_refl _

/-- Every option takes a byte of the format. -/
theorem next_rest {total : Nat} {spec : Spec}
    (h : p.next target total = .ok (some (spec, p'))) : p'.rest.length < p.rest.length := by
  obtain ⟨option, hoption, h⟩ := bind_eq_ok.mp h
  obtain _ | ⟨⟨kind, size⟩, q⟩ := option
  · cases h
  · obtain ⟨⟨align, q'⟩, halign, h⟩ := bind_eq_ok.mp h
    obtain ⟨-, h⟩ := then_eq_ok.mp h
    cases h
    exact (alignment_rest halign).trans_lt (option_rest hoption)

/-- **Enough rounds.**  As many rounds as there are unread bytes end at the end of the format:
    one more changes nothing. -/
theorem each_enough {σ : Type} {total : σ → Nat} {step : Spec → σ → Except PackError σ}
    {fuel : Nat} (hfuel : p.rest.length ≤ fuel) (state : σ) :
    Parser.each target total step (fuel + 1) p state = Parser.each target total step fuel p state := by
  induction fuel generalizing p state with
  | zero =>
    have hnil : p.rest = [] := List.length_eq_zero_iff.mp (Nat.le_zero.mp hfuel)
    have hnone : p.next target (total state) = .ok none := by
      simp [Parser.next, Parser.option, hnil]
    simp only [Parser.each, hnone, ok_bind]
  | succ fuel ih =>
    rw [Parser.each, Parser.each]
    cases hnext : p.next target (total state) with
    | error e => rfl
    | ok next =>
      obtain _ | ⟨spec, p'⟩ := next
      · rfl
      · have hless := next_rest hnext
        have hsame : Parser.each target total step (fuel + 1) p'
            = Parser.each target total step fuel p' :=
          funext fun state => ih (by omega) state
        simp only [ok_bind, hsame]

end Parser

/-! ### One option -/

variable {α : Type} (c : Context α)

/-- The value an option packs: an integer, a double, a double cut to a single, or a string. -/
def packedItem (kind : Kind) (size : Nat) (value : α) : Except PackError Item :=
  match kind with
  | .int _ => do
    let n ← c.integer value
    .ok (.integer n)
  | .float => do
    let x ← c.number value
    .ok (.float (if size = 4 then c.widen (c.narrow x) else x))
  | .char => do
    let bytes ← c.bytes value
    .ok (.string (bytes ++ List.replicate (size - bytes.length) 0))
  | _ => do
    let bytes ← c.bytes value
    .ok (.string bytes)

/-- Whether an option takes an argument. -/
def Kind.takesValue : Kind → Bool
  | .int _ | .float | .char | .string | .zero => true
  | .pad | .align | .noop => false

/-- The values an option packs and the arguments it leaves. -/
def packedField (kind : Kind) (size : Nat) (args : List α) :
    Except PackError (List Item × List α) :=
  if kind.takesValue then do
    let (value, args) ← arg args
    let item ← packedItem c kind size value
    .ok ([item], args)
  else .ok ([], args)

/-- What writing an option behind an output and reading it from there have in common: the bytes
    `body` of the option, the bytes `extra` among them beside its size, and the values `items`. -/
structure FieldTrip (spec : Spec) (args args' : List α) (output body : List UInt8) (extra : Nat)
    (items : List Item) : Prop where
  length_eq : body.length = spec.size + extra
  fixed : spec.kind ≠ .string → spec.kind ≠ .zero → extra = 0
  write : ∀ start, output = start ++ List.replicate spec.pad 0 →
    writeStep c spec (start, args) = .ok (output ++ body, args')
  packed : packedField c spec.kind spec.size args = .ok (items, args')
  pass : ∀ tail count, passField spec (output ++ (body ++ tail)) output.length count
    = .ok (output.length + extra, count + items.length)
  read : ∀ tail done, readField c spec (output ++ (body ++ tail)) output.length done
    = .ok (output.length + extra, done ++ items)

theorem slice_append (output body tail : List UInt8) :
    slice (output ++ (body ++ tail)) output.length body.length = body := by
  simp [slice]

theorem slice_append_of_length {output body tail : List UInt8} {size : Nat}
    (h : body.length = size) : slice (output ++ (body ++ tail)) output.length size = body := by
  rw [← h, slice_append]

variable {c}

theorem fieldTrip_int {spec : Spec} {signed : Bool} (hkind : spec.kind = .int signed)
    (hpos : 0 < spec.size) {total total' : Nat} {args args' : List α}
    (h : sizeField c spec total args = .ok (total', args')) (output : List UInt8) :
    ∃ body items, total' = total ∧ FieldTrip c spec args args' output body 0 items := by
  simp only [sizeField, hkind] at h
  obtain ⟨⟨value, rest⟩, harg, h⟩ := bind_eq_ok.mp h
  obtain ⟨n, hn, h⟩ := bind_eq_ok.mp h
  obtain ⟨hvalid, h⟩ := then_eq_ok.mp h
  cases h
  have hread := @readInteger_written n spec.size spec.little signed hpos hvalid
  have hslice : ∀ tail, slice (output ++ (integerBytes n.toBitVec.toNat spec.size spec.little
      (signed && decide (n.toInt < 0)) ++ tail)) output.length spec.size = _ :=
    fun tail => slice_append_of_length (length_integerBytes _ _ _ _)
  refine ⟨integerBytes n.toBitVec.toNat spec.size spec.little (signed && decide (n.toInt < 0)),
    [.integer n], rfl, ⟨by rw [length_integerBytes, Nat.add_zero], fun _ _ => rfl, ?_, ?_, ?_, ?_⟩⟩
  · rintro start rfl
    simp only [writeStep, hkind, harg, hn, ok_bind, writeInteger_eq]
  · simp only [packedField, hkind, Kind.takesValue, if_true, harg, packedItem, hn, ok_bind]
  · intro tail count
    simp only [passField, hkind, hslice, hread, ok_bind]
    rfl
  · intro tail done
    simp only [readField, hkind, hslice, hread, ok_bind]
    rfl

theorem ofWordBytes_wordBytes {little : Bool} {size word : Nat} (h : word < 256 ^ size) :
    ofWordBytes little (wordBytes little size word) = word := by
  cases little <;> simp [ofWordBytes, wordBytes, Wire.ofLittleEndian_littleEndian h]

theorem length_floatBytes {spec : Spec} (hsize : spec.size = 4 ∨ spec.size = 8) (x : F64) :
    (floatBytes c spec x).length = spec.size := by
  unfold floatBytes wordBytes
  obtain hsize | hsize := hsize <;> cases spec.little <;> simp [hsize]

theorem readFloat_floatBytes {spec : Spec} (x : F64) :
    readFloat c spec (floatBytes c spec x)
      = if spec.size = 4 then c.widen (c.narrow x) else x := by
  by_cases hsize : spec.size = 4
  · have hlt : (c.narrow x).toNat < 256 ^ 4 := (c.narrow x).isLt
    simp [readFloat, floatBytes, hsize, ofWordBytes_wordBytes hlt]
  · have hlt : x.bits.toNat < 256 ^ 8 := x.bits.isLt
    simp [readFloat, floatBytes, hsize, ofWordBytes_wordBytes hlt]

theorem fieldTrip_float {spec : Spec} (hkind : spec.kind = .float)
    (hsize : spec.size = 4 ∨ spec.size = 8) {total total' : Nat} {args args' : List α}
    (h : sizeField c spec total args = .ok (total', args')) (output : List UInt8) :
    ∃ body items, total' = total ∧ FieldTrip c spec args args' output body 0 items := by
  simp only [sizeField, hkind] at h
  obtain ⟨⟨value, rest⟩, harg, h⟩ := bind_eq_ok.mp h
  obtain ⟨x, hx, h⟩ := bind_eq_ok.mp h
  cases h
  refine ⟨floatBytes c spec x, [.float (if spec.size = 4 then c.widen (c.narrow x) else x)], rfl,
    ⟨length_floatBytes hsize x, fun _ _ => rfl, ?_, ?_, ?_, ?_⟩⟩
  · rintro start rfl
    simp only [writeStep, hkind, harg, hx, ok_bind]
  · simp only [packedField, hkind, Kind.takesValue, if_true, harg, packedItem, hx, ok_bind]
  · intro tail count
    simp only [passField, hkind]
    rfl
  · intro tail done
    simp only [readField, hkind]
    rw [slice_append_of_length (length_floatBytes hsize x), readFloat_floatBytes]
    rfl

theorem maxSize_lt (profile : LuaProfile) : maxSize profile < 2 ^ 63 := by
  cases profile <;> decide

theorem checkedSize_eq_ok {current extra total : Nat} :
    checkedSize c current extra = .ok total
      ↔ total = current + extra ∧ current + extra ≤ maxSize c.profile := by
  rw [checkedSize, then_eq_ok, reject_eq_ok, not_lt, Except.ok.injEq, and_comm]
  exact and_congr_left fun _ => eq_comm

theorem fieldTrip_char {spec : Spec} {value : α} {bytes : List UInt8} {args rest : List α}
    (hkind : spec.kind = .char) (harg : arg args = .ok (value, rest))
    (hbytes : c.bytes value = .ok bytes) (hvalid : validateBytes spec bytes = .ok ())
    (output : List UInt8) :
    FieldTrip c spec args rest output (bytes ++ List.replicate (spec.size - bytes.length) 0)
      (extraBytes spec bytes) [.string (bytes ++ List.replicate (spec.size - bytes.length) 0)] := by
  have hfits : bytes.length ≤ spec.size := by
    simpa [validateBytes, hkind] using hvalid
  have hlength : (bytes ++ List.replicate (spec.size - bytes.length) 0).length = spec.size := by
    simp [hfits]
  have hextra : extraBytes spec bytes = 0 := by simp [extraBytes, hkind]
  rw [hextra]
  constructor
  · exact hlength
  · exact fun _ _ => rfl
  · rintro start rfl
    simp only [writeStep, hkind, harg, hbytes, ok_bind, writeBytes, List.append_assoc]
  · simp only [packedField, hkind, Kind.takesValue, if_true, harg, packedItem, hbytes, ok_bind]
  · intro tail count
    simp only [passField, hkind]
    rfl
  · intro tail done
    simp only [readField, hkind]
    rw [slice_append_of_length hlength]
    rfl

theorem fieldTrip_string {spec : Spec} {value : α} {bytes : List UInt8} {args rest : List α}
    (hkind : spec.kind = .string) (harg : arg args = .ok (value, rest))
    (hbytes : c.bytes value = .ok bytes) (hvalid : validateBytes spec bytes = .ok ())
    (hlt : bytes.length < 2 ^ 64) (output : List UInt8) :
    FieldTrip c spec args rest output
      (integerBytes bytes.length spec.size spec.little false ++ bytes)
      (extraBytes spec bytes) [.string bytes] := by
  have hvalid : ¬ (spec.size < 8 ∧ bytes.length ≥ 2 ^ (spec.size * 8)) := by
    simpa only [validateBytes, hkind, reject_eq_ok] using hvalid
  have hextra : extraBytes spec bytes = bytes.length := by simp [extraBytes, hkind]
  have hlength : ∀ tail, readLength spec (output ++ (integerBytes bytes.length spec.size
      spec.little false ++ bytes ++ tail)) output.length = .ok bytes.length := by
    intro tail
    rw [readLength, List.append_assoc, slice_append_of_length (length_integerBytes _ _ _ _),
      readLength_written hlt hvalid, ok_bind]
    show Except.ok (bytes.length % 2 ^ 64) = _
    rw [Nat.mod_eq_of_lt hlt]
  have hslice : ∀ tail, slice (output ++ (integerBytes bytes.length spec.size spec.little false
      ++ bytes ++ tail)) (output.length + spec.size) bytes.length = bytes := by
    intro tail
    have hbehind := slice_append
      (output ++ integerBytes bytes.length spec.size spec.little false) bytes tail
    rw [List.length_append, length_integerBytes] at hbehind
    simpa only [List.append_assoc] using hbehind
  rw [hextra]
  constructor
  · simp
  · exact fun hstring _ => absurd hkind hstring
  · rintro start rfl
    simp only [writeStep, hkind, harg, hbytes, ok_bind, writeBytes, writeInteger_eq,
      List.append_assoc]
  · simp only [packedField, hkind, Kind.takesValue, if_true, harg, packedItem, hbytes, ok_bind]
  · intro tail count
    have hroom : ¬ bytes.length > (output ++ (integerBytes bytes.length spec.size spec.little false
        ++ bytes ++ tail)).length - output.length - spec.size := by
      simp only [List.length_append, length_integerBytes]
      omega
    simp only [passField, hkind, hlength, ok_bind]
    rw [then_eq_ok]
    exact ⟨reject_eq_ok.mpr hroom, rfl⟩
  · intro tail done
    simp only [readField, hkind, hlength, ok_bind, hslice]

theorem findIdx?_zero {bytes : List UInt8} (h : bytes.contains 0 = false) (tail : List UInt8) :
    (bytes ++ 0 :: tail).findIdx? (· == 0) = some bytes.length := by
  have hnone : bytes.findIdx? (· == 0) = none := by
    rw [List.findIdx?_eq_none_iff]
    intro byte hbyte
    rw [beq_eq_false_iff_ne]
    rintro rfl
    rw [List.contains_iff_mem.mpr hbyte] at h
    cases h
  simp [List.findIdx?_append, hnone, List.findIdx?_cons]

theorem fieldTrip_zero {spec : Spec} {value : α} {bytes : List UInt8} {args rest : List α}
    (hkind : spec.kind = .zero) (hsize : spec.size = 0) (harg : arg args = .ok (value, rest))
    (hbytes : c.bytes value = .ok bytes) (hvalid : validateBytes spec bytes = .ok ())
    {output : List UInt8} (hlt : output.length + (bytes.length + 1) < 2 ^ 64) :
    FieldTrip c spec args rest output (bytes ++ [0]) (extraBytes spec bytes) [.string bytes] := by
  have hvalid : bytes.contains 0 = false := by
    simpa only [validateBytes, hkind, reject_eq_ok, Bool.not_eq_true] using hvalid
  have hextra : extraBytes spec bytes = bytes.length + 1 := by simp [extraBytes, hkind]
  have hzero : ∀ tail, readZero (output ++ (bytes ++ [0] ++ tail)) output.length
      = .ok bytes.length := by
    intro tail
    have hfind := findIdx?_zero hvalid tail
    simp [readZero, hfind]
  rw [hextra]
  constructor
  · simp [hsize]
  · exact fun _ hzero => absurd hkind hzero
  · rintro start rfl
    simp only [writeStep, hkind, harg, hbytes, ok_bind, writeBytes, List.append_assoc]
  · simp only [packedField, hkind, Kind.takesValue, if_true, harg, packedItem, hbytes, ok_bind]
  · intro tail count
    simp only [passField, hkind, hzero, ok_bind]
    rw [then_eq_ok]
    exact ⟨reject_eq_ok.mpr (by omega), rfl⟩
  · intro tail done
    have hslice : slice (output ++ (bytes ++ [0] ++ tail)) output.length bytes.length = bytes := by
      rw [List.append_assoc, slice_append]
    simp only [readField, hkind, hzero, ok_bind, hslice]

/-- The options that take a string. -/
theorem fieldTrip_text {spec : Spec}
    (hkind : spec.kind = .char ∨ spec.kind = .string ∨ spec.kind = .zero)
    (hsized : spec.kind.Sized spec.size) {total total' : Nat} {args args' : List α}
    (h : sizeField c spec total args = .ok (total', args')) {output : List UInt8}
    (htotal : total = output.length + spec.size) :
    ∃ body extra items, total' = total + extra ∧ total' ≤ maxSize c.profile
      ∧ FieldTrip c spec args args' output body extra items := by
  have hfield : sizeField c spec total args = (do
      let (value, args) ← arg args
      let bytes ← c.bytes value
      validateBytes spec bytes
      let total ← checkedSize c total (extraBytes spec bytes)
      .ok (total, args)) := by
    obtain hkind | hkind | hkind := hkind <;> simp only [sizeField, hkind]
  rw [hfield] at h
  obtain ⟨⟨value, rest⟩, harg, h⟩ := bind_eq_ok.mp h
  obtain ⟨bytes, hbytes, h⟩ := bind_eq_ok.mp h
  obtain ⟨hvalid, h⟩ := then_eq_ok.mp h
  obtain ⟨sum, hsum, h⟩ := bind_eq_ok.mp h
  obtain ⟨rfl, hmax⟩ := checkedSize_eq_ok.mp hsum
  cases h
  have hword := maxSize_lt c.profile
  obtain hkind | hkind | hkind := hkind
  · exact ⟨_, _, _, rfl, hmax, fieldTrip_char hkind harg hbytes hvalid output⟩
  · have hextra : extraBytes spec bytes = bytes.length := by simp [extraBytes, hkind]
    exact ⟨_, _, _, rfl, hmax, fieldTrip_string hkind harg hbytes hvalid (by omega) output⟩
  · have hextra : extraBytes spec bytes = bytes.length + 1 := by simp [extraBytes, hkind]
    rw [hkind] at hsized
    exact ⟨_, _, _, rfl, hmax, fieldTrip_zero hkind hsized harg hbytes hvalid (by omega)⟩

/-- **One option.**  What the size pass accepts is written, packs its values and is read back. -/
theorem fieldTrip {spec : Spec} (hsized : spec.kind.Sized spec.size) {total total' : Nat}
    {args args' : List α} (h : sizeField c spec total args = .ok (total', args'))
    {output : List UInt8} (htotal : total = output.length + spec.size)
    (hmax : total ≤ maxSize c.profile) :
    ∃ body extra items, total' = total + extra ∧ total' ≤ maxSize c.profile
      ∧ FieldTrip c spec args args' output body extra items := by
  cases hkind : spec.kind with
  | int signed =>
    rw [hkind] at hsized
    obtain ⟨body, items, rfl, trip⟩ := fieldTrip_int hkind hsized h output
    exact ⟨body, 0, items, rfl, hmax, trip⟩
  | float =>
    rw [hkind] at hsized
    obtain ⟨body, items, rfl, trip⟩ := fieldTrip_float hkind hsized h output
    exact ⟨body, 0, items, rfl, hmax, trip⟩
  | char => exact fieldTrip_text (.inl hkind) hsized h htotal
  | string => exact fieldTrip_text (.inr (.inl hkind)) hsized h htotal
  | zero => exact fieldTrip_text (.inr (.inr hkind)) hsized h htotal
  | pad =>
    rw [hkind] at hsized
    have hsize : spec.size = 1 := hsized
    simp only [sizeField, hkind] at h
    cases h
    refine ⟨[0], 0, [], rfl, hmax, by simp [hsize], fun _ _ => rfl, ?_, ?_, ?_, ?_⟩
    · rintro start rfl
      simp only [writeStep, hkind]
    · simp [packedField, hkind, Kind.takesValue]
    · simp [passField, hkind]
    · simp [readField, hkind]
  | align | noop =>
    rw [hkind] at hsized
    have hsize : spec.size = 0 := hsized
    simp only [sizeField, hkind] at h
    cases h
    refine ⟨[], 0, [], rfl, hmax, by simp [hsize], fun _ _ => rfl, ?_, ?_, ?_, ?_⟩
    · rintro start rfl
      simp [writeStep, hkind]
    · simp [packedField, hkind, Kind.takesValue]
    · simp [passField, hkind]
    · simp [readField, hkind]

/-! ### One round of the loops -/

/-- Whether the size of an option is known without its argument. -/
def Kind.fixedSize (kind : Kind) : Bool := kind != .string && kind != .zero

/-- What the five loops do with one option, behind an output that is written so far. -/
structure StepTrip (c : Context α) (spec : Spec) (args args' : List α)
    (output field : List UInt8) (items : List Item) : Prop where
  write : writeStep c spec (output, args) = .ok (output ++ field, args')
  packed : packedField c spec.kind spec.size args = .ok (items, args')
  packsize : packsizeStep c spec output.length = if spec.kind.fixedSize
    then .ok (output.length + field.length) else .error .argument
  read : ∀ tail done, readStep c (output ++ (field ++ tail)) spec (output.length, done)
    = .ok (output.length + field.length, done ++ items)
  pass : ∀ tail count, passStep c (output ++ (field ++ tail)) spec (output.length, count)
    = if count + items.length < maxResults
      then .ok (output.length + field.length, count + items.length) else .error .argument

/-- **One round.**  Whatever the size pass accepts is written with the size it was given, and every
    other loop moves by as many bytes. -/
theorem stepTrip {spec : Spec} (hsized : spec.kind.Sized spec.size) {total total' : Nat}
    {args args' : List α} (h : sizeStep c spec (total, args) = .ok (total', args'))
    {output : List UInt8} (htotal : output.length = total) :
    ∃ field items, total' = total + field.length ∧ total' ≤ maxSize c.profile
      ∧ StepTrip c spec args args' output field items := by
  obtain ⟨_, hpad, h⟩ := bind_eq_ok.mp h
  obtain ⟨_, hsize, h⟩ := bind_eq_ok.mp h
  obtain ⟨rfl, -⟩ := checkedSize_eq_ok.mp hpad
  obtain ⟨rfl, hmax⟩ := checkedSize_eq_ok.mp hsize
  have hstart : (output ++ List.replicate spec.pad 0).length = total + spec.pad := by
    simp [htotal]
  obtain ⟨body, extra, items, rfl, hend, trip⟩ := fieldTrip hsized h (by rw [hstart]) hmax
  have hword := maxSize_lt c.profile
  have hlength := trip.length_eq
  have hdata : ∀ tail, output ++ (List.replicate spec.pad 0 ++ body ++ tail)
      = output ++ List.replicate spec.pad 0 ++ (body ++ tail) := by simp
  refine ⟨List.replicate spec.pad 0 ++ body, items, by simp [hlength]; omega, hend, ?_,
    trip.packed, ?_, ?_, ?_⟩
  · rw [trip.write output rfl, List.append_assoc]
  · by_cases hfixed : spec.kind.fixedSize = true
    · have hkind : spec.kind ≠ .string ∧ spec.kind ≠ .zero := by
        simpa [Kind.fixedSize] using hfixed
      have hextra := trip.fixed hkind.1 hkind.2
      rw [if_pos hfixed, packsizeStep, reject_bind_of_not (not_or.mpr hkind),
        reject_bind_of_not (by omega)]
      refine checkedSize_eq_ok.mpr ⟨?_, by omega⟩
      simp [hlength, hextra]
    · have hkind : spec.kind = .string ∨ spec.kind = .zero := by
        by_contra hkind
        rw [not_or] at hkind
        exact hfixed (by simp [Kind.fixedSize, hkind])
      rw [if_neg hfixed, packsizeStep, reject_bind_of hkind]
  · intro tail done
    have hread := trip.read tail done
    rw [hstart, ← hdata tail] at hread
    simp only [readStep, htotal, hread, ok_bind]
    simp [hlength]
    omega
  · intro tail count
    have hpass := trip.pass tail count
    rw [hstart, ← hdata tail] at hpass
    have hroom : ¬ spec.pad + spec.size > (output ++ (List.replicate spec.pad 0 ++ body
        ++ tail)).length - output.length := by
      simp only [List.length_append, List.length_replicate]
      omega
    have hchecked : checkedSize c (total + spec.pad + extra) spec.size
        = .ok (total + spec.pad + extra + spec.size) :=
      checkedSize_eq_ok.mpr ⟨rfl, by omega⟩
    simp only [passStep]
    rw [reject_bind_of_not (by omega), reject_bind_of_not hroom, htotal, hpass]
    simp only [ok_bind, hchecked]
    by_cases hcount : count + items.length < maxResults
    · rw [reject_bind_of_not (by omega), if_pos hcount]
      simp [hlength]
      omega
    · rw [reject_bind_of (by omega), if_neg hcount]

/-! ### Whole formats -/

section Each

variable {σ : Type} {target : Target} {total : σ → Nat} {step : Spec → σ → Except PackError σ}
  {fuel : Nat} {p p' : Parser} {state : σ}

theorem each_of_error {e : PackError} (h : p.next target (total state) = .error e) :
    Parser.each target total step (fuel + 1) p state = .error e := by
  rw [Parser.each, h, error_bind]

theorem each_of_none (h : p.next target (total state) = .ok none) :
    Parser.each target total step (fuel + 1) p state = .ok state := by
  rw [Parser.each, h, ok_bind]

theorem each_of_some {spec : Spec} (h : p.next target (total state) = .ok (some (spec, p'))) :
    Parser.each target total step (fuel + 1) p state
      = step spec state >>= Parser.each target total step fuel p' := by
  rw [Parser.each, h, ok_bind]

end Each

/-- The kinds and sizes of the options of a format, in order. -/
def options (target : Target) : Nat → Parser → List (Kind × Nat)
  | 0, _ => []
  | fuel + 1, p =>
    match p.next target 0 with
    | .ok (some (spec, p)) => (spec.kind, spec.size) :: options target fuel p
    | _ => []

/-- The values a list of options packs, taken from the arguments in order. -/
def packedItems (c : Context α) : List (Kind × Nat) → List α → Except PackError (List Item)
  | [], _ => .ok []
  | (kind, size) :: options, args => do
    let (items, args) ← packedField c kind size args
    let rest ← packedItems c options args
    .ok (items ++ rest)

/-- What the five loops do with a format, behind an output that is written so far. -/
structure RunTrip (c : Context α) (fuel : Nat) (p : Parser) (args args' : List α)
    (output field : List UInt8) (items : List Item) : Prop where
  write : Parser.each c.target (fun state => state.1.length) (writeStep c) fuel p (output, args)
    = .ok (output ++ field, args')
  packed : packedItems c (options c.target fuel p) args = .ok items
  packsize : Parser.each c.target id (packsizeStep c) fuel p output.length
    = if (options c.target fuel p).all (·.1.fixedSize)
      then .ok (output.length + field.length) else .error .argument
  read : ∀ tail done, Parser.each c.target Prod.fst (readStep c (output ++ (field ++ tail))) fuel p
      (output.length, done) = .ok (output.length + field.length, done ++ items)
  pass : ∀ tail count, count < maxResults →
    Parser.each c.target Prod.fst (passStep c (output ++ (field ++ tail))) fuel p
      (output.length, count) = if count + items.length < maxResults
        then .ok (output.length + field.length, count + items.length) else .error .argument

/-- A format with no more options. -/
theorem runTrip_done {fuel : Nat} {p : Parser} (args : List α) (output : List UInt8)
    (h : fuel = 0 ∨ ∀ total, p.next c.target total = .ok none) :
    RunTrip c fuel p args args output [] [] := by
  cases fuel with
  | zero =>
    constructor
    · simp [Parser.each]
    · rfl
    · rfl
    · simp [Parser.each]
    · intro tail count hcount
      simp [Parser.each, hcount]
  | succ fuel =>
    have hnone : ∀ total, p.next c.target total = .ok none := by
      obtain h | h := h
      · cases h
      · exact h
    have hoptions : options c.target (fuel + 1) p = [] := by simp [options, hnone]
    constructor
    · rw [each_of_none (hnone _), List.append_nil]
    · rw [hoptions]
      rfl
    · rw [each_of_none (hnone _), hoptions]
      rfl
    · intro tail done
      rw [each_of_none (hnone _), List.append_nil]
      rfl
    · intro tail count hcount
      rw [each_of_none (hnone _), List.length_nil, List.length_nil, Nat.add_zero, Nat.add_zero,
        if_pos hcount]

/-- A format with one more option in front. -/
theorem RunTrip.cons {fuel : Nat} {p p' : Parser} {spec : Spec} {pad : Nat → Nat}
    {args args' args'' : List α} {output field rest : List UInt8} {items more : List Item}
    (hnext : ∀ total, p.next c.target total = .ok (some ({ spec with pad := pad total }, p')))
    (step : StepTrip c { spec with pad := pad output.length } args args' output field items)
    (run : RunTrip c fuel p' args' args'' (output ++ field) rest more) :
    RunTrip c (fuel + 1) p args args'' output (field ++ rest) (items ++ more) := by
  have hoptions : options c.target (fuel + 1) p
      = (spec.kind, spec.size) :: options c.target fuel p' := by
    simp [options, hnext]
  constructor
  · rw [each_of_some (hnext _), step.write, ok_bind, run.write, List.append_assoc]
  · rw [hoptions, packedItems, step.packed, ok_bind]
    show packedItems c _ args' >>= _ = _
    rw [run.packed, ok_bind]
  · have hstep := step.packsize
    rw [each_of_some (hnext _), id, hstep, hoptions, List.all_cons]
    cases hfixed : spec.kind.fixedSize with
    | false => simp
    | true =>
      have hrun := run.packsize
      rw [List.length_append] at hrun
      simp only [if_true, ok_bind, hrun, Bool.true_and, List.length_append, Nat.add_assoc]
  · intro tail done
    have hstep := step.read (rest ++ tail) done
    have hrun := run.read tail (done ++ items)
    simp only [List.append_assoc, List.length_append] at hrun
    rw [each_of_some (hnext _), List.append_assoc, hstep, ok_bind, hrun, List.length_append,
      Nat.add_assoc]
  · intro tail count hcount
    have hstep := step.pass (rest ++ tail) count
    rw [each_of_some (hnext _), List.append_assoc, hstep]
    by_cases hmore : count + items.length < maxResults
    · have hrun := run.pass tail (count + items.length) hmore
      simp only [List.append_assoc, List.length_append] at hrun
      rw [if_pos hmore, ok_bind, hrun, List.length_append, List.length_append, Nat.add_assoc,
        Nat.add_assoc]
    · rw [if_neg hmore, error_bind, if_neg (by rw [List.length_append]; omega)]

/-- **The five loops.**  What the size loop accepts is written with that size and read back. -/
theorem runTrip {fuel : Nat} {p : Parser} {total total' : Nat} {args args' : List α}
    (h : Parser.each c.target Prod.fst (sizeStep c) fuel p (total, args) = .ok (total', args'))
    {output : List UInt8} (htotal : output.length = total) :
    ∃ field items, total' = total + field.length ∧ total' ≤ max total (maxSize c.profile)
      ∧ RunTrip c fuel p args args' output field items := by
  induction fuel generalizing p total args output with
  | zero =>
    cases h
    exact ⟨[], [], rfl, le_max_left _ _, runTrip_done _ _ (.inl rfl)⟩
  | succ fuel ih =>
    obtain ⟨e, hnext⟩ | hnext | ⟨kind, size, little, p', hsized, pad, hnext⟩ :=
      @Parser.next_cases c.target p
    · rw [each_of_error (hnext _)] at h
      cases h
    · rw [each_of_none (hnext _)] at h
      cases h
      exact ⟨[], [], rfl, le_max_left _ _, runTrip_done _ _ (.inr hnext)⟩
    · rw [each_of_some (hnext _)] at h
      obtain ⟨⟨total₁, args₁⟩, hstep, hrun⟩ := bind_eq_ok.mp h
      obtain ⟨field, items, rfl, hmax, step⟩ := stepTrip hsized hstep htotal
      obtain ⟨rest, more, rfl, hrest, run⟩ := @ih _ _ _ hrun (output ++ field) (by simp [htotal])
      refine ⟨field ++ rest, items ++ more, by simp [Nat.add_assoc], by omega, ?_⟩
      rw [← htotal] at step
      exact @RunTrip.cons _ _ _ _ _ ⟨kind, size, 0, little⟩ _ _ _ _ _ _ _ _ _ hnext step run

/-- The options of a format. -/
def formatOptions (c : Context α) (format : List UInt8) : List (Kind × Nat) :=
  options c.target format.length (Parser.new c.target c.profile format)

/-- The result of `unpack` for the values of a packed string of a given length. -/
def unpacked (items : List Item) (length : Nat) : Except PackError (List Item) :=
  if maxResults ≤ items.length then .error .argument
  else if 2 ^ 63 ≤ length + 1 then .error .overflow
  else .ok (items ++ [.integer (Int64.ofNat (length + 1))])

/-- What a packed string says about the other functions. -/
theorem pack_spec {format bytes : List UInt8} {args : List α}
    (h : pack c format args = .ok bytes) :
    packSize c format args = .ok bytes.length
      ∧ packsize c format = (if (formatOptions c format).all (·.1.fixedSize)
          then .ok bytes.length else .error .argument)
      ∧ ∃ items, packedItems c (formatOptions c format) args = .ok items
          ∧ unpack c format bytes 1 = unpacked items bytes.length := by
  obtain ⟨size, hsize, h⟩ := bind_eq_ok.mp h
  obtain ⟨⟨total, args'⟩, htotal, hsum⟩ := bind_eq_ok.mp hsize
  cases hsum
  have hstart : ([] : List UInt8).length = 0 := rfl
  obtain ⟨field, items, rfl, hmax, trip⟩ := runTrip htotal hstart
  have hword := maxSize_lt c.profile
  have hwrite := trip.write
  rw [List.nil_append] at hwrite
  obtain ⟨⟨output, rest⟩, houtput, h⟩ := bind_eq_ok.mp h
  rw [hwrite] at houtput
  cases houtput
  cases h
  rw [Nat.zero_add] at hsize hmax
  refine ⟨hsize, ?_, items, trip.packed, ?_⟩
  · have hpacksize := trip.packsize
    rw [hstart, Nat.zero_add] at hpacksize
    rw [packsize, hpacksize]
    by_cases hfixed : (formatOptions c format).all (·.1.fixedSize) = true
    · rw [if_pos hfixed]
      unfold formatOptions at hfixed
      rw [if_pos hfixed, ok_bind, reject_bind_of_not (by omega)]
    · rw [if_neg hfixed]
      unfold formatOptions at hfixed
      rw [if_neg hfixed, error_bind]
  · have hinitial : startPosition 1 bytes.length - 1 = 0 := rfl
    have hpass := trip.pass [] 0 (by decide)
    have hread := trip.read [] []
    simp only [List.nil_append, List.append_nil, hstart, Nat.zero_add] at hpass hread
    simp only [unpack, hinitial, unpackPass, hpass]
    rw [reject_bind_of_not (Nat.not_lt_zero _), unpacked]
    by_cases hcount : items.length < maxResults
    · rw [if_pos hcount, if_neg (by omega)]
      simp only [ok_bind, hread]
      by_cases hlength : bytes.length + 1 ≥ 2 ^ 63
      · rw [reject_bind_of hlength, if_pos hlength]
      · rw [reject_bind_of_not hlength, if_neg hlength]
    · rw [if_neg hcount, if_pos (by omega), error_bind, error_bind]

/-- Every option that takes an argument packs one value. -/
theorem length_packedItems {options : List (Kind × Nat)} {args : List α} {items : List Item}
    (h : packedItems c options args = .ok items) :
    items.length = options.countP (·.1.takesValue) := by
  induction options generalizing args items with
  | nil =>
    cases h
    rfl
  | cons option options ih =>
    obtain ⟨kind, size⟩ := option
    obtain ⟨⟨first, args'⟩, hfirst, h⟩ := bind_eq_ok.mp h
    obtain ⟨rest, hrest, h⟩ := bind_eq_ok.mp h
    cases h
    rw [List.length_append, ih hrest, List.countP_cons, Nat.add_comm]
    congr 1
    unfold packedField at hfirst
    split at hfirst
    · rename_i hvalue
      obtain ⟨⟨value, args''⟩, -, hfirst⟩ := bind_eq_ok.mp hfirst
      obtain ⟨item, -, hfirst⟩ := bind_eq_ok.mp hfirst
      cases hfirst
      simp [hvalue]
    · rename_i hvalue
      cases hfirst
      simp [hvalue]

/-- **Round trip.**  A packed string has the size the format was given, and reads back as the
    values it was packed from, followed by the position behind it, unless it holds as many values
    as a call may not return or is as long as a string can be. -/
theorem pack_roundTrip {format bytes : List UInt8} {args : List α}
    (h : pack c format args = .ok bytes) :
    packSize c format args = .ok bytes.length
      ∧ ((formatOptions c format).all (·.1.fixedSize) = true →
          packsize c format = .ok bytes.length)
      ∧ ∃ items, packedItems c (formatOptions c format) args = .ok items
          ∧ (unpack c format bytes 1
                = .ok (items ++ [.integer (Int64.ofNat (bytes.length + 1))])
              ↔ (formatOptions c format).countP (·.1.takesValue) < 65535
                ∧ bytes.length + 1 < 2 ^ 63)
          ∧ (¬ ((formatOptions c format).countP (·.1.takesValue) < 65535
                ∧ bytes.length + 1 < 2 ^ 63) →
              ∃ e, unpack c format bytes 1 = .error e) := by
  obtain ⟨hsize, hpacksize, items, hpacked, hunpack⟩ := pack_spec h
  have hcount := length_packedItems hpacked
  refine ⟨hsize, fun hfixed => by rw [hpacksize, if_pos hfixed], items, hpacked, ?_, ?_⟩
  · rw [hunpack, unpacked, ← hcount]
    unfold maxResults
    constructor
    · intro heq
      split at heq
      · cases heq
      · split at heq
        · cases heq
        · omega
    · intro hlt
      rw [if_neg (by omega), if_neg (by omega)]
  · intro hnot
    rw [hunpack, unpacked, hcount]
    unfold maxResults
    split
    · exact ⟨_, rfl⟩
    · rw [if_pos (by omega)]
      exact ⟨_, rfl⟩

/-- A little-endian machine with 64-bit `long`, on which the arguments are values of the right
    type already. -/
def sampleContext (profile : LuaProfile) : Context Item where
  profile := profile
  target := ⟨true, 8, 16, by decide, by decide⟩
  integer
    | .integer n => .ok n
    | _ => .error .argument
  number
    | .float x => .ok x
    | _ => .error .argument
  bytes
    | .string bytes => .ok bytes
    | _ => .error .argument
  narrow _ := 0
  widen _ := ⟨0⟩

/-- `>!4bi16z` packs a byte, three bytes of padding, sixteen bytes and a string. -/
theorem pack_roundTrip_bigEndian :
    pack (sampleContext .lua55) [0x3e, 0x21, 0x34, 0x62, 0x69, 0x31, 0x36, 0x7a]
        [.integer 1, .integer (-2), .string [0x41]]
      = .ok [1, 0, 0, 0, 255, 255, 255, 255, 255, 255, 255, 255, 255, 255, 255, 255, 255, 255,
          255, 254, 0x41, 0]
      ∧ packSize (sampleContext .lua55) [0x3e, 0x21, 0x34, 0x62, 0x69, 0x31, 0x36, 0x7a]
        [.integer 1, .integer (-2), .string [0x41]] = .ok 22 :=
  have h : pack (sampleContext .lua55) [0x3e, 0x21, 0x34, 0x62, 0x69, 0x31, 0x36, 0x7a]
        [.integer 1, .integer (-2), .string [0x41]]
      = .ok [1, 0, 0, 0, 255, 255, 255, 255, 255, 255, 255, 255, 255, 255, 255, 255, 255, 255,
          255, 254, 0x41, 0] := by rfl
  ⟨h, (pack_roundTrip h).1⟩

/-- A format of `b`s, whose next option is a byte. -/
theorem next_byte {target : Target} {p : Parser} {rest : List UInt8} (hrest : p.rest = 0x62 :: rest)
    (hmax : p.maxalign = 1) (total : Nat) :
    p.next target total = .ok (some (⟨.int true, 1, 0, p.little⟩, { p with rest := rest })) := by
  simp [Parser.next, Parser.option, hrest, Parser.optionOf, reject, Parser.alignment, hmax,
    Parser.padding]

theorem options_bytes {target : Target} {n : Nat} {p : Parser}
    (hrest : p.rest = List.replicate n 0x62) (hmax : p.maxalign = 1) :
    options target n p = List.replicate n (.int true, 1) := by
  induction n generalizing p with
  | zero => rfl
  | succ n ih =>
    have hnext := @next_byte target p _ (hrest.trans List.replicate_succ) hmax 0
    have htail := @ih { p with rest := List.replicate n 0x62 } rfl hmax
    simp only [options, hnext, List.replicate_succ, htail]

theorem sizeEach_bytes {profile : LuaProfile} {n total : Nat} {p : Parser}
    (hrest : p.rest = List.replicate n 0x62) (hmax : p.maxalign = 1)
    (htotal : total + n ≤ maxSize profile) :
    Parser.each (sampleContext profile).target Prod.fst (sizeStep (sampleContext profile)) n p
      (total, List.replicate n (.integer 0)) = .ok (total + n, []) := by
  induction n generalizing p total with
  | zero => rfl
  | succ n ih =>
    have hstep : sizeStep (sampleContext profile) ⟨.int true, 1, 0, p.little⟩
        (total, List.replicate (n + 1) (.integer 0))
          = .ok (total + 1, List.replicate n (.integer 0)) := by
      have hpad : checkedSize (sampleContext profile) total 0 = .ok total :=
        checkedSize_eq_ok.mpr ⟨rfl, by show total + 0 ≤ maxSize profile; omega⟩
      have hsize : checkedSize (sampleContext profile) total 1 = .ok (total + 1) :=
        checkedSize_eq_ok.mpr ⟨rfl, by show total + 1 ≤ maxSize profile; omega⟩
      simp only [sizeStep, hpad, hsize, ok_bind, sizeField, List.replicate_succ, arg]
      rfl
    have htail := @ih (total + 1) { p with rest := List.replicate n 0x62 } rfl hmax (by omega)
    rw [each_of_some (next_byte (hrest.trans List.replicate_succ) hmax _), hstep, ok_bind, htail,
      Nat.add_assoc, Nat.add_comm 1]

/-- Arguments that have a size are packed. -/
theorem pack_of_packSize {format : List UInt8} {args : List α} {size : Nat}
    (h : packSize c format args = .ok size) : ∃ bytes, pack c format args = .ok bytes := by
  obtain ⟨⟨total, args'⟩, htotal, -⟩ := bind_eq_ok.mp h
  have hstart : ([] : List UInt8).length = 0 := rfl
  obtain ⟨field, items, -, -, trip⟩ := runTrip htotal hstart
  refine ⟨field, ?_⟩
  rw [pack, h, ok_bind, trip.write, ok_bind, List.nil_append]

/-- 65535 bytes are packed and not read back. -/
theorem not_unpack_manyValues :
    ∃ bytes, pack (sampleContext .lua54) (List.replicate 65535 0x62)
        (List.replicate 65535 (.integer 0)) = .ok bytes
      ∧ unpack (sampleContext .lua54) (List.replicate 65535 0x62) bytes 1 = .error .argument := by
  have hlength : (List.replicate 65535 (0x62 : UInt8)).length = 65535 := List.length_replicate
  have hsize : packSize (sampleContext .lua54) (List.replicate 65535 0x62)
      (List.replicate 65535 (.integer 0)) = .ok 65535 := by
    have heach := @sizeEach_bytes .lua54 65535 0
      (Parser.new (sampleContext .lua54).target .lua54 (List.replicate 65535 0x62)) rfl rfl
      (by decide)
    rw [packSize, hlength]
    show Parser.each _ _ _ 65535 (Parser.new (sampleContext .lua54).target .lua54 _) _ >>= _ = _
    rw [heach, ok_bind]
  obtain ⟨bytes, hpack⟩ := pack_of_packSize hsize
  obtain ⟨-, -, items, hpacked, hunpack⟩ := pack_spec hpack
  have hcount : items.length = 65535 := by
    have hoptions : formatOptions (sampleContext .lua54) (List.replicate 65535 0x62)
        = List.replicate 65535 (.int true, 1) := by
      rw [formatOptions, hlength]
      exact options_bytes rfl rfl
    rw [length_packedItems hpacked, hoptions, List.countP_replicate]
    rfl
  refine ⟨bytes, hpack, ?_⟩
  rw [hunpack, unpacked, hcount]
  exact if_pos (le_refl _)

end RivetLua.Stdlib.Pack
